import Mathlib.Data.List.Basic

/-! # UTF-8 validation (utf8.c)

    A string is the list of its bytes without the terminating NUL, so that
    reading past its end reads the NUL, as `getD _ 0` does here. -/

namespace SdCompat

open List

/-- `unichar_is_valid` -/
def unichar_is_valid (ch : Nat) : Bool :=
  !(0x110000 ≤ ch) &&                       -- end of unicode space
  !(ch &&& 0xFFFFF800 == 0xD800) &&         -- reserved area for UTF-16
  !(0xFDD0 ≤ ch && ch ≤ 0xFDEF) &&          -- reserved
  !(ch &&& 0xFFFE == 0xFFFE)                -- byte order mark

/-- `utf8_encoded_expected_len`: how many bytes a character starting with `c`
    takes, 0 when no character starts with it. -/
def utf8_encoded_expected_len (c : UInt8) : Nat :=
  if c < 0x80 then 1
  else if c &&& 0xe0 = 0xc0 then 2
  else if c &&& 0xf0 = 0xe0 then 3
  else if c &&& 0xf8 = 0xf0 then 4
  else if c &&& 0xfc = 0xf8 then 5
  else if c &&& 0xfe = 0xfc then 6
  else 0

/-- The continuation bytes of `utf8_encoded_to_unichar`. -/
def utf8_continue (unichar : Nat) : List UInt8 → Option Nat
  | [] => some unichar
  | c :: rest =>
    if c &&& 0xc0 = 0x80 then
      utf8_continue (unichar <<< 6 ||| (c &&& 0x3f).toNat) rest
    else
      none

/-- `utf8_encoded_to_unichar`: decode one character. -/
def utf8_encoded_to_unichar (str : List UInt8) : Option Nat :=
  let c := str.headD 0
  let len := utf8_encoded_expected_len c
  let rest := (range (len - 1)).map fun i => str.getD (i + 1) 0
  match len with
  | 1 => some c.toNat
  | 2 => utf8_continue (c &&& 0x1f).toNat rest
  | 3 => utf8_continue (c &&& 0x0f).toNat rest
  | 4 => utf8_continue (c &&& 0x07).toNat rest
  | 5 => utf8_continue (c &&& 0x03).toNat rest
  | 6 => utf8_continue (c &&& 0x01).toNat rest
  | _ => none

/-- `utf8_unichar_to_encoded_len` -/
def utf8_unichar_to_encoded_len (unichar : Nat) : Nat :=
  if unichar < 0x80 then 1
  else if unichar < 0x800 then 2
  else if unichar < 0x10000 then 3
  else if unichar < 0x200000 then 4
  else if unichar < 0x4000000 then 5
  else 6

/-- `utf8_encoded_valid_unichar` without a length limit: the length of the
    valid character the string starts with. -/
def utf8_encoded_valid_unichar (str : List UInt8) : Option Nat :=
  let len := utf8_encoded_expected_len (str.headD 0)
  if len = 0 then none
  else if len = 1 then some 1
  else if (range len).all (fun i => str.getD i 0 &&& 0x80 = 0x80) then
    match utf8_encoded_to_unichar str with
    | none => none
    | some unichar =>
      if utf8_unichar_to_encoded_len unichar = len && unichar_is_valid unichar then
        some len
      else
        none
  else none

/-- The loop of `utf8_is_valid_n`; every round consumes at least one byte. -/
def utf8_is_valid_loop : Nat → List UInt8 → Bool
  | _, [] => true
  | 0, _ :: _ => false
  | fuel + 1, c :: rest =>
    match utf8_encoded_valid_unichar (c :: rest) with
    | none => false
    | some len => utf8_is_valid_loop fuel ((c :: rest).drop len)

/-- `utf8_is_valid`, on a NUL-terminated string. -/
def utf8_is_valid (str : List UInt8) : Bool :=
  utf8_is_valid_loop str.length str

variable {str : List UInt8}

theorem utf8_encoded_valid_unichar_pos {len : Nat} (h : utf8_encoded_valid_unichar str = some len) :
    0 < len := by
  unfold utf8_encoded_valid_unichar at h
  simp only at h
  split at h
  · simp at h
  · split at h
    · obtain rfl : 1 = len := Option.some.inj h
      exact Nat.one_pos
    · split at h
      · split at h
        · simp at h
        · split at h
          · next hlen _ _ _ _ _ =>
            have := Option.some.inj h
            omega
          · simp at h
      · simp at h

/-- The loop always has fuel enough: more than one unit a byte changes
    nothing. -/
theorem utf8_is_valid_loop_fuel {n : Nat} (h : str.length ≤ n) :
    utf8_is_valid_loop n str = utf8_is_valid str := by
  suffices hmain : ∀ m n (str : List UInt8), str.length ≤ m → str.length ≤ n →
      utf8_is_valid_loop m str = utf8_is_valid_loop n str from
    hmain _ _ _ h (Nat.le_refl _)
  intro m
  induction m with
  | zero =>
    intro n str hm _
    obtain rfl : str = [] := eq_nil_of_length_eq_zero (by omega)
    cases n <;> rfl
  | succ m ih =>
    intro n str hm hn
    cases str with
    | nil => cases n <;> rfl
    | cons c rest =>
      cases n with
      | zero => simp at hn
      | succ n =>
        simp only [utf8_is_valid_loop]
        cases hv : utf8_encoded_valid_unichar (c :: rest) with
        | none => rfl
        | some len =>
          have hpos := utf8_encoded_valid_unichar_pos hv
          simp only [length_cons] at hm hn
          exact ih n _ (by rw [length_drop, length_cons]; omega)
            (by rw [length_drop, length_cons]; omega)

/-- Plain ASCII text is valid UTF-8. -/
theorem utf8_is_valid_of_ascii (h : ∀ c ∈ str, c < 0x80) : utf8_is_valid str = true := by
  unfold utf8_is_valid
  induction str with
  | nil => rfl
  | cons c rest ih =>
    have hc : c < 0x80 := h c (by simp)
    have hv : utf8_encoded_valid_unichar (c :: rest) = some 1 := by
      simp [utf8_encoded_valid_unichar, utf8_encoded_expected_len, hc]
    simp only [length_cons, utf8_is_valid_loop, hv, tail_cons]
    exact ih fun d hd => h d (by simp [hd])

example : utf8_is_valid [0x68, 0xc3, 0xa9] = true := by decide
example : utf8_is_valid [0xc3, 0x28] = false := by decide

/-! ## Encoding -/

/-- `utf8_encode_unichar` -/
def utf8_encode_unichar (g : Nat) : List UInt8 :=
  if g < 1 <<< 7 then
    [(g &&& 0x7f).toUInt8]
  else if g < 1 <<< 11 then
    [(0xc0 ||| ((g >>> 6) &&& 0x1f)).toUInt8,
     (0x80 ||| (g &&& 0x3f)).toUInt8]
  else if g < 1 <<< 16 then
    [(0xe0 ||| ((g >>> 12) &&& 0x0f)).toUInt8,
     (0x80 ||| ((g >>> 6) &&& 0x3f)).toUInt8,
     (0x80 ||| (g &&& 0x3f)).toUInt8]
  else if g < 1 <<< 21 then
    [(0xf0 ||| ((g >>> 18) &&& 0x07)).toUInt8,
     (0x80 ||| ((g >>> 12) &&& 0x3f)).toUInt8,
     (0x80 ||| ((g >>> 6) &&& 0x3f)).toUInt8,
     (0x80 ||| (g &&& 0x3f)).toUInt8]
  else []

/-- `utf16_is_surrogate` -/
def utf16_is_surrogate (c : Nat) : Bool := 0xd800 ≤ c && c ≤ 0xdfff

/-- `utf16_is_trailing_surrogate` -/
def utf16_is_trailing_surrogate (c : Nat) : Bool := 0xdc00 ≤ c && c ≤ 0xdfff

/-- `utf16_surrogate_pair_to_unichar`, for a leading and a trailing
    surrogate. -/
def utf16_surrogate_pair_to_unichar (lead trail : Nat) : Nat :=
  ((lead - 0xd800) <<< 10) + (trail - 0xdc00) + 0x10000

end SdCompat
