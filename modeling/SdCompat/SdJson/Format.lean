import Mathlib.Data.Nat.Digits.Defs
import SdCompat.SdJson.Variant

/-! # Formatting JSON (sd-json.c)

    `json_format` with the flags `SD_JSON_FORMAT_PRETTY` or none: no colour,
    no source positions and no censoring.
-/

namespace SdCompat.Json

variable {R : Type}

/-- `"%" PRIuMAX` -/
def print_unsigned (u : Nat) : List UInt8 :=
  if u = 0 then [48]
  else (Nat.digits 10 u).reverse.map fun d => (48 + d).toUInt8

/-- `"%" PRIdMAX` -/
def print_integer (i : Int) : List UInt8 :=
  if i < 0 then 45 :: print_unsigned i.natAbs
  else print_unsigned i.natAbs

/-- A digit as `"%x"` prints it. -/
def print_hex (d : Nat) : UInt8 := if d < 10 then (48 + d).toUInt8 else (87 + d).toUInt8

/-- `"\\u%04x"`, of a number below 65536. -/
def print_escape (n : Nat) : List UInt8 :=
  [92, 117, print_hex (n / 4096 % 16), print_hex (n / 256 % 16),
   print_hex (n / 16 % 16), print_hex (n % 16)]

/-- One character of `json_format_string`. -/
def json_format_char (q : UInt8) : List UInt8 :=
  if q = 34 then [92, 34]              -- \"
  else if q = 92 then [92, 92]         -- \\
  else if q = 8 then [92, 98]          -- \b
  else if q = 12 then [92, 102]        -- \f
  else if q = 10 then [92, 110]        -- \n
  else if q = 13 then [92, 114]        -- \r
  else if q = 9 then [92, 116]         -- \t
  else if q < 32 then print_escape q.toNat
  else [q]

/-- `json_format_string` -/
def json_format_string (q : List UInt8) : List UInt8 :=
  34 :: q.flatMap json_format_char ++ [34]

/-- How `printf` prints a double with `"%.*e"` and `DECIMAL_DIG` digits. -/
class DoubleFormat (R : Type) where
  print : R → List UInt8

/-- For evaluation, with the number of digits that Lean prints. -/
instance : DoubleFormat Float where
  print x := ascii x.toString

mutual
/-- `json_format`; `pre` is the indentation so far. -/
def json_format [DoubleFormat R] (pretty : Bool) (pre : List UInt8) : Variant R → List UInt8
  | .real x => DoubleFormat.print x
  | .integer i => print_integer i
  | .unsigned u => print_unsigned u
  | .boolean b => if b then ascii "true" else ascii "false"
  | .null => ascii "null"
  | .string s => json_format_string s
  | .array [] => ascii "[]"
  | .array (e :: l) =>
    let prefix2 := if pretty then pre ++ [9] else pre
    [91] ++ (if pretty then [10] else []) ++
      json_format_elements pretty prefix2 true (e :: l) ++
      (if pretty then 10 :: pre else []) ++ [93]
  | .object [] => ascii "\x7b\x7d"
  | .object (m :: l) =>
    let prefix2 := if pretty then pre ++ [9] else pre
    [123] ++ (if pretty then [10] else []) ++
      json_format_pairs pretty prefix2 true (m :: l) ++
      (if pretty then 10 :: pre else []) ++ [125]

/-- The loop over the elements of an array; `first` is `i == 0`. -/
def json_format_elements [DoubleFormat R] (pretty : Bool) (prefix2 : List UInt8) (first : Bool) :
    List (Variant R) → List UInt8
  | [] => []
  | e :: l =>
    (if first then [] else if pretty then ascii ",\n" else ascii ",") ++
      (if pretty then prefix2 else []) ++
      json_format pretty prefix2 e ++ json_format_elements pretty prefix2 false l

/-- The loop over the members of an object. -/
def json_format_pairs [DoubleFormat R] (pretty : Bool) (prefix2 : List UInt8) (first : Bool) :
    List (List UInt8 × Variant R) → List UInt8
  | [] => []
  | (k, v) :: l =>
    (if first then [] else if pretty then ascii ",\n" else ascii ",") ++
      (if pretty then prefix2 else []) ++
      json_format_string k ++ (if pretty then ascii " : " else ascii ":") ++
      json_format pretty prefix2 v ++ json_format_pairs pretty prefix2 false l
end

/-- `sd_json_variant_format`, with the flag `SD_JSON_FORMAT_PRETTY` or none. -/
def sd_json_variant_format [DoubleFormat R] (v : Variant R) (pretty : Bool) : List UInt8 :=
  json_format pretty [] v ++ if pretty then [10] else []

end SdCompat.Json
