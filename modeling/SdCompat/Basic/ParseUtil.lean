import SdCompat.Basic.Common

/-! # Reading numbers (hexdecoct.c, parse-util.c, user-util.c)

    Only what the authentication code reads: hexadecimal tokens and user ids. -/

namespace SdCompat

/-- Membership in `WHITESPACE`, tested with `strchr`, which also finds the
    terminating NUL. -/
def is_whitespace (c : UInt8) : Bool :=
  c = 0 || c = 0x20 || c = 0x09 || c = 0x0a || c = 0x0d

/-! ## Hexadecimal -/

/-- `unhexchar` -/
def unhexchar (c : UInt8) : Option UInt8 :=
  if 0x30 ≤ c && c ≤ 0x39 then some (c - 0x30)
  else if 0x61 ≤ c && c ≤ 0x66 then some (c - 0x61 + 10)
  else if 0x41 ≤ c && c ≤ 0x46 then some (c - 0x41 + 10)
  else none

/-- What `unhex_next` found. -/
inductive HexNext where
  | eof
  | invalid
  | digit (d : UInt8) (rest : List UInt8)

/-- `unhex_next`: the next digit, with the whitespace around it skipped. -/
def unhex_next (p : List UInt8) : HexNext :=
  match p.dropWhile is_whitespace with
  | [] => .eof
  | c :: rest =>
    match unhexchar c with
    | none => .invalid
    | some d => .digit d (rest.dropWhile is_whitespace)

/-- The loop of `unhexmem_full`; every round consumes two bytes or more. -/
def unhexmem_loop : Nat → List UInt8 → Option (List UInt8)
  | 0, _ => some []
  | fuel + 1, p =>
    match unhex_next p with
    | .eof => some []
    | .invalid => none
    | .digit a p' =>
      match unhex_next p' with
      | .digit b p'' => (unhexmem_loop fuel p'').map ((a <<< 4 ||| b) :: ·)
      | _ => none

/-- `unhexmem_full`, when its buffer can be allocated. -/
def unhexmem_full (p : List UInt8) : Option (List UInt8) :=
  unhexmem_loop (p.length + 1) p

/-! ## User ids -/

/-- `isspace` in the C locale, which is what `strtoul` skips. -/
def isspace (c : UInt8) : Bool := c = 0x20 || (0x09 ≤ c && c ≤ 0x0d)

def isdigit (c : UInt8) : Bool := 0x30 ≤ c && c ≤ 0x39

/-- `strtoul` with base 10: the value and what follows the number; `none`
    when there is no number or when it does not fit `unsigned long`. A minus
    sign is accepted and negates modulo 2^64. -/
def strtoul10 (s : List UInt8) : Option (Nat × List UInt8) :=
  let s := s.dropWhile isspace
  let neg := s.head? = some 0x2d
  let s := if neg || s.head? = some 0x2b then s.tail else s
  let digits := s.takeWhile isdigit
  let n := digits.foldl (fun n c => 10 * n + (c - 0x30).toNat) 0
  if digits = [] || 2 ^ 64 ≤ n then none
  else some (if neg then (2 ^ 64 - n) % 2 ^ 64 else n, s.dropWhile isdigit)

/-- `safe_atou32_full` with base 10 and all of its refusals, as `parse_uid`
    calls it. -/
def safe_atou32 (s : List UInt8) : Option Nat :=
  if is_whitespace (s.headD 0) then none
  else if s.head? = some 0x2b || s.head? = some 0x2d then none
  else if s.head? = some 0x30 && s ≠ [0x30] then none
  else
    match strtoul10 s with
    | none => none
    | some (l, rest) =>
      if rest ≠ [] then none
      else if 2 ^ 32 ≤ l then none
      else some l

/-- `uid_is_valid` -/
def uid_is_valid (uid : Nat) : Bool := uid ≠ 0xFFFFFFFF && uid ≠ 0xFFFF

/-- `parse_uid` -/
def parse_uid (s : List UInt8) : Option Nat :=
  match safe_atou32 s with
  | none => none
  | some uid => if uid_is_valid uid then some uid else none

example : parse_uid (ascii "1000") = some 1000 := by decide
example : parse_uid (ascii "01000") = none := by decide

end SdCompat
