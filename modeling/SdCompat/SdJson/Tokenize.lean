import Mathlib.Logic.Function.Iterate
import SdCompat.Basic.ParseUtil
import SdCompat.SdJson.Variant

/-! # The JSON tokenizer (sd-json.c)

    A pointer into the text is the rest of the text from there, and reading
    at the end reads the terminating NUL. Line and column counting is left
    out, and so are failing allocations.
-/

namespace SdCompat.Json

open Double

variable {R : Type}

/-- The token types, each with what the tokenizer returns along with it. -/
inductive Token (R : Type) where
  | end | colon | comma
  | object_open | object_close | array_open | array_close
  | string (s : List UInt8)
  | real (x : R)
  | integer (i : Int)
  | unsigned (u : Nat)
  | boolean (b : Bool)
  | null
  deriving Repr

/-- The states of the tokenizer. `STATE_NULL` is where it starts; all it adds
    to `STATE_VALUE` is that line and column are set to 1. -/
inductive TokenizerState where
  | STATE_VALUE
  | STATE_VALUE_POST
  deriving DecidableEq, Repr

/-! ## Section 1: Strings -/

/-- `unhex_ucs2`, of four characters; the number 0 is refused. -/
def unhex_ucs2 : List UInt8 → Option Nat
  | a :: b :: c :: d :: _ =>
    match unhexchar a, unhexchar b, unhexchar c, unhexchar d with
    | some aa, some bb, some cc, some dd =>
      let x := aa.toNat <<< 12 ||| bb.toNat <<< 8 ||| cc.toNat <<< 4 ||| dd.toNat
      if x = 0 then none else some x
    | _, _, _, _ => none
  | _ => none

/-- What one round of the loop of `json_parse_string` comes to. -/
inductive StringRound where
  /-- The closing quote, and the text after it. -/
  | closed (rest : List UInt8)
  /-- Bytes to append, and the text to go on with. -/
  | piece (s : List UInt8) (rest : List UInt8)
  deriving DecidableEq, Repr

/-- The characters after a backslash that stand for one byte. -/
def simple_escape (c : UInt8) : Option UInt8 :=
  if c = 34 ∨ c = 92 ∨ c = 47 then some c
  else if c = 98 then some 8
  else if c = 102 then some 12
  else if c = 110 then some 10
  else if c = 114 then some 13
  else if c = 116 then some 9
  else none

/-- The escape `\u`, with `c` after the `u`. -/
def json_parse_unicode_escape (c : List UInt8) : Outcome StringRound :=
  match unhex_ucs2 c with
  | none => .err Errno.EINVAL
  | some x =>
    let c := c.drop 4
    if !utf16_is_surrogate x then .ok (.piece (utf8_encode_unichar x) c)
    else if utf16_is_trailing_surrogate x then .err Errno.EINVAL
    else match c with
      | 92 :: 117 :: c =>
        match unhex_ucs2 c with
        | none => .err Errno.EINVAL
        | some y =>
          if !utf16_is_trailing_surrogate y then .err Errno.EINVAL
          else .ok (.piece (utf8_encode_unichar (utf16_surrogate_pair_to_unichar x y)) (c.drop 4))
      | _ => .err Errno.EINVAL

/-- One round of the loop of `json_parse_string`. -/
def json_parse_string_round : List UInt8 → Outcome StringRound
  | [] => .err Errno.EINVAL
  | c :: rest =>
    if c < 32 then .err Errno.EINVAL            -- control characters 0x00..0x1f
    else if c = 0x7f then .err Errno.EINVAL     -- control character 0x7f
    else if c = 34 then .ok (.closed rest)
    else if c = 92 then
      match rest with
      | [] => .err Errno.EINVAL
      | e :: rest =>
        match simple_escape e with
        | some ch => .ok (.piece [ch] rest)
        | none => if e = 117 then json_parse_unicode_escape rest else .err Errno.EINVAL
    else match utf8_encoded_valid_unichar (c :: rest) with
      | none => .err Errno.EINVAL
      | some len => .ok (.piece ((c :: rest).take len) ((c :: rest).drop len))

/-- The loop of `json_parse_string`; every round consumes at least one
    byte. -/
def json_parse_string_loop : Nat → List UInt8 → List UInt8 → Outcome (List UInt8 × List UInt8)
  | 0, _, _ => .abort
  | fuel + 1, s, c => do
    match ← json_parse_string_round c with
    | .closed rest => pure (s, rest)
    | .piece p rest => json_parse_string_loop fuel (s ++ p) rest

/-- `json_parse_string`: the string, and the text after it. -/
def json_parse_string : List UInt8 → Outcome (List UInt8 × List UInt8)
  | 34 :: c => json_parse_string_loop (c.length + 1) [] c
  | _ => .err Errno.EINVAL

/-! ## Section 2: Numbers -/

/-- `strchr(DIGITS, c) && c != 0` -/
def is_digit (c : UInt8) : Bool := 48 ≤ c && c ≤ 57

/-- `c - '0'` -/
def digit (c : UInt8) : Nat := c.toNat - 48

/-- A loop that takes all digits from here on. -/
def take_digits {σ : Type} (f : σ → UInt8 → σ) : σ → List UInt8 → σ × List UInt8
  | s, [] => (s, [])
  | s, c :: rest => if is_digit c then take_digits f (f s c) rest else (s, c :: rest)

/-- The variables of the loop over the digits of the integer part. -/
structure IntegerPart (R : Type) where
  is_real : Bool
  i : Int
  u : Nat
  x : R
  deriving Repr

/-- One digit of the integer part. On overflow of the 64-bit integer the
    number becomes a real. -/
def integer_digit [Double R] (negative : Bool) (s : IntegerPart R) (c : UInt8) : IntegerPart R :=
  let x := add (mul (ofNat 10) s.x) (ofNat (digit c))
  if s.is_real then { s with x := x }
  else if negative then
    if s.i < INT64_MIN.tdiv 10 then { s with is_real := true, x := x }
    else if 10 * s.i < INT64_MIN + digit c then { s with is_real := true, x := x }
    else { s with i := 10 * s.i - digit c, x := x }
  else
    if UINT64_MAX / 10 < s.u then { s with is_real := true, x := x }
    else if UINT64_MAX - digit c < 10 * s.u then { s with is_real := true, x := x }
    else { s with u := 10 * s.u + digit c, x := x }

/-- One digit of the fractional part: `y` and `shift`. -/
def fraction_digit [Double R] (s : R × R) (c : UInt8) : R × R :=
  (add (mul (ofNat 10) s.1) (ofNat (digit c)),
   mul (ofNat 10) s.2)

/-- One digit of the exponent. -/
def exponent_digit [Double R] (exponent : R) (c : UInt8) : R :=
  add (mul (ofNat 10) exponent) (ofNat (digit c))

def INT_MAX : Nat := 2147483647

/-- `xexp10i`; the entries of its table are the powers of ten, which are
    exact up to 10^22. -/
def xexp10i [Double R] (n : Int) : R :=
  let k := min n.natAbs 309
  let table : R := ofNat (10 ^ min k 22)
  let r := Nat.iterate (fun r : R => mul r (ofNat 10)) (k - 22) table
  if n < 0 then div (ofNat 1) r else r

/-- The fractional part, if there is one: whether there is, `y` and `shift`,
    and the text after it. -/
def json_parse_fraction [Double R] : List UInt8 → Outcome (Bool × (R × R) × List UInt8)
  | 46 :: c =>
    if (c.head?.map is_digit).getD false then
      let (s, c) := take_digits fraction_digit (ofNat 0, ofNat 1) c
      .ok (true, s, c)
    else .err Errno.EINVAL
  | c => .ok (false, (ofNat 0, ofNat 1), c)

/-- The sign of an exponent: whether it is negative, and the text after it. -/
def exponent_sign : List UInt8 → Bool × List UInt8
  | 45 :: c => (true, c)
  | 43 :: c => (false, c)
  | c => (false, c)

/-- The exponent, if there is one: whether there is, its sign, and its
    digits. -/
def json_parse_exponent [Double R] : List UInt8 → Outcome (Bool × Bool × R × List UInt8)
  | e :: c =>
    if e = 101 ∨ e = 69 then
      let (negative, c) := exponent_sign c
      if (c.head?.map is_digit).getD false then
        let (x, c) := take_digits exponent_digit (ofNat 0) c
        .ok (true, negative, x, c)
      else .err Errno.EINVAL
    else .ok (false, false, ofNat 0, e :: c)
  | [] => .ok (false, false, ofNat 0, [])

/-- The integer part: a zero alone, or digits of which the first is not
    zero. -/
def json_parse_integer_part [Double R] (negative : Bool) : List UInt8 →
    Outcome (IntegerPart R × List UInt8)
  | c :: rest =>
    if c = 48 then .ok (⟨false, 0, 0, ofNat 0⟩, rest)
    else if is_digit c then
      .ok (take_digits (integer_digit negative) ⟨false, 0, 0, ofNat 0⟩ (c :: rest))
    else .err Errno.EINVAL
  | [] => .err Errno.EINVAL

/-- `(negative ? -1.0 : 1.0) * (x + (y / shift)) * xexp10i(exponent_negative ? -e : e)` -/
def real_value [Double R] (negative : Bool) (x : R) (fraction : R × R)
    (exponent_negative : Bool) (exponent : R) : R :=
  let e : Nat := if exceeds exponent INT_MAX then INT_MAX else toNat exponent
  let one : R := ofNat 1
  mul
    (mul (if negative then neg one else one)
      (add x (div fraction.1 fraction.2)))
    (xexp10i (if exponent_negative then -(e : Int) else e))

/-- `json_parse_number`: the number as a token, and the text after it. -/
def json_parse_number [Double R] (p : List UInt8) : Outcome (Token R × List UInt8) := do
  let negative := p.head? == some 45
  let c := if negative then p.drop 1 else p
  let (n, c) ← json_parse_integer_part negative c
  let (has_fraction, fraction, c) ← json_parse_fraction c
  let (has_exponent, exponent_negative, exponent, c) ← json_parse_exponent c
  if n.is_real || has_fraction || has_exponent then
    pure (.real (real_value negative n.x fraction exponent_negative exponent), c)
  else if negative then pure (.integer n.i, c)
  else pure (.unsigned n.u, c)

/-! ## Section 3: Tokens -/

/-- A character of `WHITESPACE`. -/
def is_whitespace (c : UInt8) : Bool := c == 32 || c == 9 || c == 10 || c == 13

/-- The tokens of one character that may stand where a value is expected. -/
def value_punctuation (c : UInt8) : Option (Token R × TokenizerState) :=
  if c = 123 then some (.object_open, .STATE_VALUE)
  else if c = 125 then some (.object_close, .STATE_VALUE_POST)
  else if c = 91 then some (.array_open, .STATE_VALUE)
  else if c = 93 then some (.array_close, .STATE_VALUE_POST)
  else none

/-- The tokens of one character that may stand after a value. -/
def post_punctuation (c : UInt8) : Option (Token R × TokenizerState) :=
  if c = 58 then some (.colon, .STATE_VALUE)
  else if c = 44 then some (.comma, .STATE_VALUE)
  else if c = 125 then some (.object_close, .STATE_VALUE_POST)
  else if c = 93 then some (.array_close, .STATE_VALUE_POST)
  else none

/-- `json_tokenize` on what is left after the whitespace. -/
def json_token [Double R] (state : TokenizerState) :
    List UInt8 → Outcome (Token R × TokenizerState × List UInt8)
  | [] => .ok (.end, state, [])
  | c :: rest =>
    match state with
    | .STATE_VALUE =>
      match value_punctuation c with
      | some (t, state) => .ok (t, state, rest)
      | none =>
        if c = 34 then do
          let (s, rest) ← json_parse_string (c :: rest)
          pure (.string s, .STATE_VALUE_POST, rest)
        else if c = 45 || is_digit c then do
          let (t, rest) ← json_parse_number (c :: rest)
          pure (t, .STATE_VALUE_POST, rest)
        else if (ascii "true").isPrefixOf (c :: rest) then
          .ok (.boolean true, .STATE_VALUE_POST, (c :: rest).drop 4)
        else if (ascii "false").isPrefixOf (c :: rest) then
          .ok (.boolean false, .STATE_VALUE_POST, (c :: rest).drop 5)
        else if (ascii "null").isPrefixOf (c :: rest) then
          .ok (.null, .STATE_VALUE_POST, (c :: rest).drop 4)
        else .err Errno.EINVAL
    | .STATE_VALUE_POST =>
      match post_punctuation c with
      | some (t, state) => .ok (t, state, rest)
      | none => .err Errno.EINVAL

/-- `json_tokenize`: the token, the state after it, and the text after it. -/
def json_tokenize [Double R] (p : List UInt8) (state : TokenizerState) :
    Outcome (Token R × TokenizerState × List UInt8) :=
  json_token state (p.dropWhile is_whitespace)

end SdCompat.Json
