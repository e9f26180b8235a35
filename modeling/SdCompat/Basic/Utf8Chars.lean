import SdCompat.Basic.Common
import SdCompat.Basic.Utf8

/-! # UTF-8 characters

    `utf8_encode_unichar` and `utf8_encoded_valid_unichar` are inverse to
    each other: the valid characters are the encodings of the valid code
    points. -/

namespace SdCompat

open List Nat UInt8

/-! ## Section 1: Bytes as numbers -/

/-- The length a first byte stands for, by its value. -/
theorem expected_len_eq (c : UInt8) : utf8_encoded_expected_len c =
      if c.toNat < 128 then 1 else if c.toNat < 192 then 0 else if c.toNat < 224 then 2
      else if c.toNat < 240 then 3 else if c.toNat < 248 then 4 else if c.toNat < 252 then 5
      else if c.toNat < 254 then 6 else 0 :=
  forall_byte (P := fun c => utf8_encoded_expected_len c =
    if c.toNat < 128 then 1 else if c.toNat < 192 then 0 else if c.toNat < 224 then 2
    else if c.toNat < 240 then 3 else if c.toNat < 248 then 4 else if c.toNat < 252 then 5
    else if c.toNat < 254 then 6 else 0) (by decide +kernel) c

theorem high_bit (c : UInt8) : c &&& 0x80 = 0x80 ↔ 128 ≤ c.toNat :=
  forall_byte (P := fun c => c &&& 0x80 = 0x80 ↔ 128 ≤ c.toNat) (by decide +kernel) c

theorem continuation (c : UInt8) : c &&& 0xc0 = 0x80 ↔ 128 ≤ c.toNat ∧ c.toNat < 192 :=
  forall_byte (P := fun c => c &&& 0xc0 = 0x80 ↔ 128 ≤ c.toNat ∧ c.toNat < 192)
    (by decide +kernel) c

/-- The low bits of a byte. -/
theorem low_bits (c : UInt8) :
    (c &&& 0x3f).toNat = c.toNat % 64 ∧ (c &&& 0x1f).toNat = c.toNat % 32 ∧
      (c &&& 0x0f).toNat = c.toNat % 16 ∧ (c &&& 0x07).toNat = c.toNat % 8 ∧
      (c &&& 0x03).toNat = c.toNat % 4 ∧ (c &&& 0x01).toNat = c.toNat % 2 :=
  forall_byte (P := fun c => (c &&& 0x3f).toNat = c.toNat % 64 ∧
    (c &&& 0x1f).toNat = c.toNat % 32 ∧ (c &&& 0x0f).toNat = c.toNat % 16 ∧
    (c &&& 0x07).toNat = c.toNat % 8 ∧ (c &&& 0x03).toNat = c.toNat % 4 ∧
    (c &&& 0x01).toNat = c.toNat % 2) (by decide +kernel) c

/-- One continuation byte adds six bits. -/
theorem utf8_continue_cons (unichar : Nat) (c : UInt8) (rest : List UInt8) :
    utf8_continue unichar (c :: rest) =
      if 128 ≤ c.toNat ∧ c.toNat < 192 then utf8_continue (unichar * 64 + c.toNat % 64) rest
      else none := by
  have hor : unichar <<< 6 ||| (c &&& 0x3f).toNat = unichar * 64 + c.toNat % 64 := by
    rw [(low_bits c).1, ← shiftLeft_add_eq_or_of_lt (mod_lt _ (by decide)),
      shiftLeft_eq]
  simp only [utf8_continue, hor, continuation]

variable {n : Nat}

theorem mask_add {k b m : Nat} (hm : m = 2 ^ b - 1) (hk : k = 2 ^ b * n) (g : Nat) :
    k ||| (g &&& m) = k + g % 2 ^ b := by
  subst hm hk
  rw [Nat.and_two_pow_sub_one_eq_mod]
  exact (Nat.two_pow_add_eq_or_of_lt (Nat.mod_lt _ (Nat.two_pow_pos b)) n).symm

/-- The encoding by arithmetic. -/
theorem utf8_encode_unichar_eq (g : Nat) : utf8_encode_unichar g = if g < 128 then [ofNat g]
      else if g < 2048 then [ofNat (192 + g / 64), ofNat (128 + g % 64)] else if g < 65536 then
        [ofNat (224 + g / 4096), ofNat (128 + g / 64 % 64), ofNat (128 + g % 64)]
      else if g < 2097152 then [ofNat (240 + g / 262144), ofNat (128 + g / 4096 % 64),
         ofNat (128 + g / 64 % 64), ofNat (128 + g % 64)] else [] := by
  have h7 : g &&& 0x7f = g % 128 := and_two_pow_sub_one_eq_mod g 7
  have hc : ∀ x, 0x80 ||| (x &&& 0x3f) = 128 + x % 64 := fun x =>
    mask_add (b := 6) (n := 2) rfl rfl x
  have h2 : ∀ x, 0xc0 ||| (x &&& 0x1f) = 192 + x % 32 := fun x =>
    mask_add (b := 5) (n := 6) rfl rfl x
  have h3 : ∀ x, 0xe0 ||| (x &&& 0x0f) = 224 + x % 16 := fun x =>
    mask_add (b := 4) (n := 14) rfl rfl x
  have h4 : ∀ x, 0xf0 ||| (x &&& 0x07) = 240 + x % 8 := fun x =>
    mask_add (b := 3) (n := 30) rfl rfl x
  unfold utf8_encode_unichar
  simp only [hc, h2, h3, h4, h7, shiftRight_eq_div_pow, one_shiftLeft, reducePow]
  split
  · rw [mod_eq_of_lt (by omega)]
  · split
    · rw [mod_eq_of_lt (show g / 64 < 32 by omega)]
    · split
      · rw [mod_eq_of_lt (show g / 4096 < 16 by omega)]
      · split
        · rw [mod_eq_of_lt (show g / 262144 < 8 by omega)]
        · rfl

/-! ## Section 2: Decoding -/

variable {c : UInt8} {rest : List UInt8}

variable {c₁ : UInt8}

/-- A character of two bytes. -/
theorem decode_two (h : 192 ≤ c.toNat ∧ c.toNat < 224) : utf8_encoded_to_unichar (c :: c₁ :: rest) =
      utf8_continue (c.toNat % 32) [c₁] := by
  have hlen : utf8_encoded_expected_len c = 2 := by
    rw [expected_len_eq]
    simp [show ¬ c.toNat < 128 by omega, show ¬ c.toNat < 192 by omega, h.2]
  simp [utf8_encoded_to_unichar, hlen, (low_bits c).2.1]

/-- A character of three bytes. -/
theorem decode_three {c₂ : UInt8} (h : 224 ≤ c.toNat ∧ c.toNat < 240) :
    utf8_encoded_to_unichar (c :: c₁ :: c₂ :: rest) = utf8_continue (c.toNat % 16) [c₁, c₂] := by
  have hlen : utf8_encoded_expected_len c = 3 := by
    rw [expected_len_eq]
    simp [show ¬ c.toNat < 128 by omega, show ¬ c.toNat < 192 by omega,
      show ¬ c.toNat < 224 by omega, h.2]
  simp [utf8_encoded_to_unichar, hlen, (low_bits c).2.2.1, range_succ]

/-- A character of four bytes. -/
theorem decode_four {c₂ c₃ : UInt8} (h : 240 ≤ c.toNat ∧ c.toNat < 248) :
    utf8_encoded_to_unichar (c :: c₁ :: c₂ :: c₃ :: rest) =
      utf8_continue (c.toNat % 8) [c₁, c₂, c₃] := by
  have hlen : utf8_encoded_expected_len c = 4 := by
    rw [expected_len_eq]
    simp [show ¬ c.toNat < 128 by omega, show ¬ c.toNat < 192 by omega,
      show ¬ c.toNat < 224 by omega, show ¬ c.toNat < 240 by omega, h.2]
  simp [utf8_encoded_to_unichar, hlen, (low_bits c).2.2.2.1, range_succ]

variable {str : List UInt8}

/-- What makes a character of more than one byte valid. -/
theorem valid_unichar_iff {len : Nat} (hlen : utf8_encoded_expected_len (str.headD 0) = n)
    (hn : 1 < n) : utf8_encoded_valid_unichar str = some len ↔
      len = n ∧ (∀ i < n, 128 ≤ (str.getD i 0).toNat) ∧
        ∃ ch, utf8_encoded_to_unichar str = some ch ∧ utf8_unichar_to_encoded_len ch = n ∧
          unichar_is_valid ch = true := by
  unfold utf8_encoded_valid_unichar
  simp only [hlen]
  rw [if_neg (by omega), if_neg (by omega)]
  constructor
  · intro h
    split at h
    · next hall =>
      cases hdec : utf8_encoded_to_unichar str with
      | none => simp [hdec] at h
      | some ch =>
        simp only [hdec] at h
        split at h
        · next hch =>
          simp only [Bool.and_eq_true, decide_eq_true_eq] at hch
          simp only [all_eq_true, mem_range, decide_eq_true_eq, high_bit] at hall
          exact ⟨(Option.some.inj h).symm, hall, ch, rfl, hch.1, hch.2⟩
        · simp at h
    · simp at h
  · rintro ⟨rfl, hall, ch, hdec, hch, hvalid⟩
    have hall' : (range len).all (fun i => str.getD i 0 &&& 0x80 = 0x80) = true := by
      simpa only [all_eq_true, mem_range, decide_eq_true_eq, high_bit] using hall
    rw [if_pos hall', hdec]
    simp [hch, hvalid]

/-! ## Section 3: The valid characters -/

theorem toNat_ofNat_byte (h : n < 256) : (ofNat n).toNat = n :=
  toNat_ofNat_of_lt' h

variable {ch : Nat}

theorem encode_ne_nil (h : ch < 2097152) : utf8_encode_unichar ch ≠ [] := by
  rw [utf8_encode_unichar_eq]
  split
  · simp
  · split
    · simp
    · split
      · simp
      · simp

theorem unichar_is_valid_ascii (h : ch < 128) : unichar_is_valid ch = true := by
  have hall : ∀ n : Fin 128, unichar_is_valid n.val = true := by decide +kernel
  exact hall ⟨ch, h⟩

/-- Where the string decodes to `ch`, and in the shortest way. -/
theorem valid_unichar_of_decode (hlen : utf8_encoded_expected_len (str.headD 0) = n) (hn : 1 < n)
    (hall : ∀ i < n, 128 ≤ (str.getD i 0).toNat) (hdec : utf8_encoded_to_unichar str = some ch)
    (hch : utf8_unichar_to_encoded_len ch = n) :
    utf8_encoded_valid_unichar str = if unichar_is_valid ch then some n else none := by
  split
  · next hv => exact (valid_unichar_iff hlen hn).mpr ⟨rfl, hall, ch, hdec, hch, hv⟩
  · next hv =>
    rw [Option.eq_none_iff_forall_ne_some]
    intro len hs
    obtain ⟨-, -, ch', hdec', -, hv'⟩ := (valid_unichar_iff hlen hn).mp hs
    rw [hdec] at hdec'
    obtain rfl : ch = ch' := Option.some.inj hdec'
    exact hv hv'

/-- The encoding of a code point that is not ASCII says how long it is, and
    decodes to the code point. -/
theorem encode_decodes (h1 : ¬ ch < 128) (hlt : ch < 2097152) (rest : List UInt8) :
    ∃ n, 1 < n ∧ (utf8_encode_unichar ch).length = n ∧
      utf8_encoded_expected_len ((utf8_encode_unichar ch ++ rest).headD 0) = n ∧
      (∀ i < n, 128 ≤ ((utf8_encode_unichar ch ++ rest).getD i 0).toNat) ∧
      utf8_encoded_to_unichar (utf8_encode_unichar ch ++ rest) = some ch ∧
      utf8_unichar_to_encoded_len ch = n := by
  rw [utf8_encode_unichar_eq, if_neg h1]
  have hc : ∀ x, (ofNat (128 + x % 64)).toNat = 128 + x % 64 := fun x =>
    toNat_ofNat_byte (by omega)
  by_cases h2 : ch < 2048
  · have hb := toNat_ofNat_byte (n := 192 + ch / 64) (by omega)
    rw [if_pos h2]
    refine ⟨2, by decide, rfl, ?_, ?_, ?_, ?_⟩
    · rw [cons_append, headD_cons, expected_len_eq, hb]
      simp [show ¬ 192 + ch / 64 < 128 by omega, show ¬ 192 + ch / 64 < 192 by omega,
        show 192 + ch / 64 < 224 by omega]
    · intro i hi
      match i, hi with
      | 0, _ => simp; omega
      | 1, _ => simp; omega
    · rw [cons_append, cons_append, decode_two (by rw [hb]; omega), utf8_continue_cons,
        hb, hc, if_pos (by omega)]
      simp only [utf8_continue]
      congr 1
      omega
    · simp [utf8_unichar_to_encoded_len, h1, h2]
  rw [if_neg h2]
  by_cases h3 : ch < 65536
  · have hb := toNat_ofNat_byte (n := 224 + ch / 4096) (by omega)
    rw [if_pos h3]
    refine ⟨3, by decide, rfl, ?_, ?_, ?_, ?_⟩
    · rw [cons_append, headD_cons, expected_len_eq, hb]
      simp [show ¬ 224 + ch / 4096 < 128 by omega, show ¬ 224 + ch / 4096 < 192 by omega,
        show ¬ 224 + ch / 4096 < 224 by omega, show 224 + ch / 4096 < 240 by omega]
    · intro i hi
      match i, hi with
      | 0, _ => simp; omega
      | 1, _ => simp; omega
      | 2, _ => simp; omega
    · rw [cons_append, cons_append, cons_append,
        decode_three (by rw [hb]; omega), utf8_continue_cons, utf8_continue_cons, hb, hc, hc,
        if_pos (by omega), if_pos (by omega)]
      simp only [utf8_continue]
      congr 1
      omega
    · simp [utf8_unichar_to_encoded_len, h1, h2, h3]
  rw [if_neg h3, if_pos hlt]
  have hb := toNat_ofNat_byte (n := 240 + ch / 262144) (by omega)
  refine ⟨4, by decide, rfl, ?_, ?_, ?_, ?_⟩
  · rw [cons_append, headD_cons, expected_len_eq, hb]
    simp [show ¬ 240 + ch / 262144 < 128 by omega, show ¬ 240 + ch / 262144 < 192 by omega,
      show ¬ 240 + ch / 262144 < 224 by omega, show ¬ 240 + ch / 262144 < 240 by omega,
      show 240 + ch / 262144 < 248 by omega]
  · intro i hi
    match i, hi with
    | 0, _ => simp; omega
    | 1, _ => simp; omega
    | 2, _ => simp; omega
    | 3, _ => simp; omega
  · rw [cons_append, cons_append, cons_append, cons_append,
      decode_four (by rw [hb]; omega), utf8_continue_cons, utf8_continue_cons, utf8_continue_cons,
      hb, hc, hc, hc, if_pos (by omega), if_pos (by omega), if_pos (by omega)]
    simp only [utf8_continue]
    congr 1
    omega
  · simp [utf8_unichar_to_encoded_len, h1, h2, h3, hlt]

theorem expected_len_ascii (h : ch < 128) : utf8_encoded_expected_len (ofNat ch) = 1 := by
  rw [expected_len_eq, toNat_ofNat_byte (by omega), if_pos h]

/-- The encoding of a code point is a valid character exactly when the code
    point is valid. -/
theorem valid_unichar_encode (hlt : ch < 2097152) (rest : List UInt8) :
    utf8_encoded_valid_unichar (utf8_encode_unichar ch ++ rest) =
      if unichar_is_valid ch then some (utf8_encode_unichar ch).length else none := by
  by_cases h1 : ch < 128
  · rw [utf8_encode_unichar_eq, if_pos h1, unichar_is_valid_ascii h1]
    simp [utf8_encoded_valid_unichar, expected_len_ascii h1]
  · obtain ⟨n, hn, rfl, hlen, hall, hdec, hch⟩ := encode_decodes h1 hlt rest
    exact valid_unichar_of_decode hlen hn hall hdec hch

theorem expected_len_encode (hlt : ch < 2097152) :
    utf8_encoded_expected_len ((utf8_encode_unichar ch).headD 0) = (utf8_encode_unichar ch).length := by
  by_cases h1 : ch < 128
  · rw [utf8_encode_unichar_eq, if_pos h1]
    exact expected_len_ascii h1
  · obtain ⟨_, -, hn, hlen, -⟩ := encode_decodes h1 hlt []
    rw [append_nil] at hlen
    exact hlen.trans hn.symm

/-- Decoding what was encoded. -/
theorem to_unichar_encode (hlt : ch < 2097152) (rest : List UInt8) :
    utf8_encoded_to_unichar (utf8_encode_unichar ch ++ rest) = some ch := by
  by_cases h1 : ch < 128
  · rw [utf8_encode_unichar_eq, if_pos h1]
    simp only [utf8_encoded_to_unichar, singleton_append, headD_cons,
      expected_len_ascii h1, toNat_ofNat_byte (n := ch) (by omega)]
  · obtain ⟨_, _, _, _, _, hdec, _⟩ := encode_decodes h1 hlt rest
    exact hdec

/-- A byte given by its number. -/
theorem ofNat_eq_of_toNat (h : n = c.toNat) : UInt8.ofNat n = c := by
  rw [h, UInt8.ofNat_toNat]

/-- What a successful continuation says of the byte. -/
theorem of_utf8_continue {unichar : Nat} (h : utf8_continue unichar (c :: rest) = some ch) :
    128 ≤ c.toNat ∧ c.toNat < 192 ∧ utf8_continue (unichar * 64 + c.toNat % 64) rest = some ch := by
  rw [utf8_continue_cons] at h
  split at h
  · next hc => exact ⟨hc.1, hc.2, h⟩
  · simp at h

/-- The code points below the end of the unicode space. -/
theorem lt_of_valid (h : unichar_is_valid ch = true) : ch < 0x110000 := by
  unfold unichar_is_valid at h
  simp only [Bool.and_eq_true, Bool.not_eq_true', decide_eq_false_iff_not] at h
  omega

/-- The range of the code points with an encoding of so many bytes. -/
theorem encoded_len_range (h : utf8_unichar_to_encoded_len ch = n) :
    (n = 1 ↔ ch < 128) ∧ (n ≤ 2 ↔ ch < 2048) ∧ (n ≤ 3 ↔ ch < 65536) ∧ (n ≤ 4 ↔ ch < 2097152) := by
  unfold utf8_unichar_to_encoded_len at h
  repeat' split at h
  all_goals omega

/-- The range of the first bytes of characters of so many bytes. -/
theorem expected_len_range (h : utf8_encoded_expected_len c = n) :
    (n = 1 ↔ c.toNat < 128) ∧ (n = 2 ↔ 192 ≤ c.toNat ∧ c.toNat < 224) ∧
      (n = 3 ↔ 224 ≤ c.toNat ∧ c.toNat < 240) ∧ (n = 4 ↔ 240 ≤ c.toNat ∧ c.toNat < 248) := by
  rw [expected_len_eq] at h
  repeat' split at h
  all_goals omega

/-- A valid character is the encoding of a valid code point. -/
theorem encode_of_valid_unichar {len : Nat} (hne : str ≠ [])
    (h : utf8_encoded_valid_unichar str = some len) :
    ∃ ch, unichar_is_valid ch = true ∧ len = (utf8_encode_unichar ch).length ∧
      str.take len = utf8_encode_unichar ch := by
  obtain ⟨c, rest, rfl⟩ := exists_cons_of_ne_nil hne
  obtain ⟨n, hexp⟩ : ∃ n, utf8_encoded_expected_len c = n := ⟨_, rfl⟩
  have hc := expected_len_range hexp
  by_cases h1 : n = 1
  · -- an ASCII character
    have h' : 1 = len := by simpa [utf8_encoded_valid_unichar, hexp, h1] using h
    have hlt : c.toNat < 128 := hc.1.mp h1
    refine ⟨c.toNat, unichar_is_valid_ascii hlt, ?_, ?_⟩
    · rw [utf8_encode_unichar_eq, if_pos hlt, ← h', length_singleton]
    · rw [utf8_encode_unichar_eq, if_pos hlt, ← h', UInt8.ofNat_toNat]
      rfl
  have hn : 1 < n := by
    by_contra hle
    obtain rfl : n = 0 := by omega
    simp [utf8_encoded_valid_unichar, hexp] at h
  obtain ⟨rfl, hall, ch, hdec, hch, hvalid⟩ := (valid_unichar_iff (by exact hexp) hn).mp h
  have hlt := lt_of_valid hvalid
  have hr := encoded_len_range hch
  -- so there are 2, 3 or 4 bytes, and the string is that long
  have hlen : len ≤ (c :: rest).length := by
    by_contra hgt
    have := hall (c :: rest).length (by omega)
    simp at this
  refine ⟨ch, hvalid, ?_⟩
  rw [utf8_encode_unichar_eq, if_neg (by omega)]
  obtain rfl | rfl | rfl : len = 2 ∨ len = 3 ∨ len = 4 := by omega
  · obtain ⟨c₁, rest, rfl⟩ : ∃ c₁ r, rest = c₁ :: r := by
      rcases rest with _ | ⟨c₁, r⟩
      · simp at hlen
      · exact ⟨c₁, r, rfl⟩
    have hcr := hc.2.1.mp rfl
    rw [decode_two hcr] at hdec
    obtain ⟨h₁, h1', hdec⟩ := of_utf8_continue hdec
    have hval : c.toNat % 32 * 64 + c₁.toNat % 64 = ch := Option.some.inj hdec
    rw [if_pos (by omega)]
    refine ⟨rfl, ?_⟩
    rw [ofNat_eq_of_toNat (c := c) (by omega), ofNat_eq_of_toNat (c := c₁) (by omega)]
    rfl
  · obtain ⟨c₁, c2, rest, rfl⟩ : ∃ c₁ c2 r, rest = c₁ :: c2 :: r := by
      rcases rest with _ | ⟨c₁, _ | ⟨c2, r⟩⟩
      · simp at hlen
      · simp at hlen
      · exact ⟨c₁, c2, r, rfl⟩
    have hcr := hc.2.2.1.mp rfl
    rw [decode_three hcr] at hdec
    obtain ⟨h₁, h1', hdec⟩ := of_utf8_continue hdec
    obtain ⟨h2, h2', hdec⟩ := of_utf8_continue hdec
    have hval : (c.toNat % 16 * 64 + c₁.toNat % 64) * 64 + c2.toNat % 64 = ch :=
      Option.some.inj hdec
    rw [if_neg (by omega), if_pos (by omega)]
    refine ⟨rfl, ?_⟩
    rw [ofNat_eq_of_toNat (c := c) (by omega), ofNat_eq_of_toNat (c := c₁) (by omega),
      ofNat_eq_of_toNat (c := c2) (by omega)]
    rfl
  · obtain ⟨c₁, c2, c3, rest, rfl⟩ : ∃ c₁ c2 c3 r, rest = c₁ :: c2 :: c3 :: r := by
      rcases rest with _ | ⟨c₁, _ | ⟨c2, _ | ⟨c3, r⟩⟩⟩
      · simp at hlen
      · simp at hlen
      · simp at hlen
      · exact ⟨c₁, c2, c3, r, rfl⟩
    have hcr := hc.2.2.2.mp rfl
    rw [decode_four hcr] at hdec
    obtain ⟨h₁, h1', hdec⟩ := of_utf8_continue hdec
    obtain ⟨h2, h2', hdec⟩ := of_utf8_continue hdec
    obtain ⟨h3, h3', hdec⟩ := of_utf8_continue hdec
    have hval : ((c.toNat % 8 * 64 + c₁.toNat % 64) * 64 + c2.toNat % 64) * 64 + c3.toNat % 64 = ch :=
      Option.some.inj hdec
    rw [if_neg (by omega), if_neg (by omega), if_pos (by omega)]
    refine ⟨rfl, ?_⟩
    rw [ofNat_eq_of_toNat (c := c) (by omega), ofNat_eq_of_toNat (c := c₁) (by omega),
      ofNat_eq_of_toNat (c := c2) (by omega), ofNat_eq_of_toNat (c := c3) (by omega)]
    rfl

/-- The first byte of an encoding: an ASCII character is itself, any other
    starts with a byte that is none. -/
theorem encode_head (h : ch < 2097152) :
    ∃ c t, utf8_encode_unichar ch = c :: t ∧ (ch < 128 → c.toNat = ch) ∧
      (128 ≤ ch → 128 ≤ c.toNat) := by
  rw [utf8_encode_unichar_eq]
  by_cases h1 : ch < 128
  · rw [if_pos h1]
    exact ⟨_, _, rfl, fun _ => toNat_ofNat_byte (by omega), fun h => by omega⟩
  rw [if_neg h1]
  split
  · exact ⟨_, _, rfl, fun h => (h1 h).elim, fun _ => by
      rw [toNat_ofNat_byte (by omega)]; omega⟩
  · split
    · exact ⟨_, _, rfl, fun h => (h1 h).elim, fun _ => by
        rw [toNat_ofNat_byte (by omega)]; omega⟩
    · exact ⟨_, _, rfl, fun h => (h1 h).elim, fun _ => by
        rw [toNat_ofNat_byte (by omega)]; omega⟩

/-- No byte of a character that is not ASCII is an ASCII character. -/
theorem encode_high (hch : 128 ≤ ch) (hc : c ∈ utf8_encode_unichar ch) : 128 ≤ c.toNat := by
  have hbyte : ∀ {k n : Nat}, 128 ≤ k → k + n < 256 → 128 ≤ (ofNat (k + n)).toNat := by
    intro k n hk hn
    rw [toNat_ofNat_byte hn]
    omega
  rw [utf8_encode_unichar_eq, if_neg (by omega)] at hc
  repeat' split at hc
  all_goals
    simp only [mem_cons, not_mem_nil, or_false] at hc
  · rcases hc with rfl | rfl
    · exact hbyte (by decide) (by omega)
    · exact hbyte (by decide) (by omega)
  · rcases hc with rfl | rfl | rfl
    · exact hbyte (by decide) (by omega)
    · exact hbyte (by decide) (by omega)
    · exact hbyte (by decide) (by omega)
  · rcases hc with rfl | rfl | rfl | rfl
    · exact hbyte (by decide) (by omega)
    · exact hbyte (by decide) (by omega)
    · exact hbyte (by decide) (by omega)
    · exact hbyte (by decide) (by omega)

theorem encode_ascii (h : c.toNat < 128) : utf8_encode_unichar c.toNat = [c] := by
  rw [utf8_encode_unichar_eq, if_pos h, UInt8.ofNat_toNat]

/-! ## Section 4: Strings of characters -/

theorem encode_pos (h : ch < 2097152) : 0 < (utf8_encode_unichar ch).length :=
  length_pos_iff.mpr (encode_ne_nil h)

/-- A string that starts with an encoded code point is valid when the code
    point is, and the rest of the string. -/
theorem utf8_is_valid_encode_append (hlt : ch < 2097152) (rest : List UInt8) :
    utf8_is_valid (utf8_encode_unichar ch ++ rest) = (unichar_is_valid ch && utf8_is_valid rest) := by
  obtain ⟨c, t, hc⟩ := exists_cons_of_ne_nil (encode_ne_nil hlt)
  have hv := valid_unichar_encode hlt rest
  have hfuel := @utf8_is_valid_loop_fuel rest (t ++ rest).length (by simp)
  rw [hc] at hv ⊢
  rw [utf8_is_valid, cons_append, length_cons, utf8_is_valid_loop, ← cons_append, hv]
  cases hval : unichar_is_valid ch with
  | false => rfl
  | true =>
    rw [if_pos rfl]
    simp only [drop_left]
    exact hfuel

end SdCompat
