import SdCompat.Basic.ParseUtil

/-! # Reading the values of an address (parse-util.c, user-util.c, hostname-util.c, af-list.c,
    sd-id128.c)

    Numbers with the errors they are refused with, host names and identifiers.
-/

namespace SdCompat

/-! ## Numbers -/

/-- The number that digits of some base are. -/
def digits_value (base : Nat) (digits : List UInt8) : Nat :=
  digits.foldl (fun n c => base * n + ((unhexchar c).getD 0).toNat) 0

/-- Whether it is a digit of that base. -/
def is_base_digit (base : Nat) (c : UInt8) : Bool :=
  match unhexchar c with
  | some d => d.toNat < base
  | none => false

/-- `mangle_base`, for the base 0. -/
def mangle_base (s : List UInt8) : Nat × List UInt8 :=
  match s with
  | 0x30 :: x :: k =>
    if x = 0x62 || x = 0x42 then (2, k)
    else if x = 0x6f || x = 0x4f then (8, k)
    else (0, s)
  | _ => (0, s)

/-- The base that `strtoul` finds when it is given the base 0. -/
def found_base (base : Nat) (s : List UInt8) : Nat × List UInt8 :=
  if base ≠ 0 then (base, s)
  else
    match s with
    | 0x30 :: x :: d :: k =>
      if (x = 0x78 || x = 0x58) && is_base_digit 16 d then (16, d :: k) else (8, s)
    | 0x30 :: _ => (8, s)
    | _ => (10, s)

/-- `safe_atolu`, on a system where `unsigned long` has 64 bits. -/
def safe_atolu (s : List UInt8) : Outcome Nat :=
  let (base, s) := mangle_base (s.dropWhile is_whitespace)
  let t := s.dropWhile isspace
  let neg := t.head? = some 0x2d
  let (base, t) := found_base base (if neg || t.head? = some 0x2b then t.tail else t)
  let digits := t.takeWhile (is_base_digit base)
  let n := digits_value base digits
  if digits = [] then .err .EINVAL
  else if 2 ^ 64 ≤ n then .err .ERANGE
  else if t.dropWhile (is_base_digit base) ≠ [] then .err .EINVAL
  else
    let l := if neg then (2 ^ 64 - n) % 2 ^ 64 else n
    if l ≠ 0 && s.head? = some 0x2d then .err .ERANGE else .ok l

/-- `parse_pid`: the number is one of a `pid_t`, and valid. -/
def parse_pid (s : List UInt8) : Outcome Nat := do
  let ul ← safe_atolu s
  if 2 ^ 31 ≤ ul || ul = 0 then .err .ERANGE else .ok ul

/-- The error of `parse_uid`, for a text that is none. -/
def parse_uid_error (s : List UInt8) : Errno :=
  if (safe_atou32 s).isSome then Errno.ENXIO
  else if is_whitespace (s.headD 0) || s.head? = some 0x2b || s.head? = some 0x2d ||
      (s.head? = some 0x30 && s ≠ [0x30]) then .EINVAL
  else
    let digits := (s.dropWhile isspace).takeWhile isdigit
    if digits ≠ [] && (2 ^ 64 ≤ digits_value 10 digits ||
        (s.dropWhile isspace).dropWhile isdigit = []) then .ERANGE
    else .EINVAL

/-- `parse_uid`, with its errors. -/
def parse_uid_value (s : List UInt8) : Outcome Nat :=
  match parse_uid s with
  | some uid => .ok uid
  | none => .err (parse_uid_error s)

/-- `parse_gid` -/
def parse_gid_value (s : List UInt8) : Outcome Nat := parse_uid_value s

/-- `UID_INVALID`, `GID_INVALID` -/
def UID_INVALID : Nat := 0xFFFFFFFF

/-- What `parse_uid` reads is a valid user. -/
theorem parse_uid_value_valid {s : List UInt8} {uid : Nat} (h : parse_uid_value s = .ok uid) :
    uid ≠ UID_INVALID := by
  unfold parse_uid_value parse_uid at h
  split at h
  · next uid' hparse =>
    cases h
    split at hparse
    · cases hparse
    · split at hparse
      · next hvalid =>
        cases hparse
        rintro rfl
        exact absurd hvalid (by decide)
      · cases hparse
  · cases h

/-! ## Host names -/

def LINUX_HOST_NAME_MAX : Nat := 64

/-- `valid_ldh_char` -/
def valid_ldh_char (c : UInt8) : Bool :=
  (0x61 ≤ c && c ≤ 0x7a) || (0x41 ≤ c && c ≤ 0x5a) || isdigit c || c = 0x2d

/-- The loop of `hostname_is_valid`, and what follows it: neither a dot nor a
    hyphen is at the end. -/
def hostname_loop : Bool → Bool → List UInt8 → Bool
  | dot, hyphen, [] => !dot && !hyphen
  | dot, hyphen, c :: p =>
    if c = 0x2e then !dot && !hyphen && hostname_loop true false p
    else if c = 0x2d then !dot && hostname_loop false true p
    else valid_ldh_char c && hostname_loop false false p

/-- `hostname_is_valid` with `VALID_HOSTNAME_DOT_HOST` -/
def hostname_is_valid (s : List UInt8) : Bool :=
  s ≠ [] && (s = ascii ".host" || (hostname_loop true true s && s.length ≤ LINUX_HOST_NAME_MAX))

/-! ## Address families and identifiers -/

/-- The families of `struct addrinfo` hints. -/
inductive AddressFamily where
  | unspec | inet | inet6
  deriving DecidableEq

/-- `af_from_ipv4_ipv6` -/
def af_from_ipv4_ipv6 (af : List UInt8) : AddressFamily :=
  if af = ascii "ipv4" then .inet else if af = ascii "ipv6" then .inet6 else .unspec

/-- `SD_ID128_NULL` -/
def SD_ID128_NULL : List UInt8 := List.replicate 16 0

/-- The loop of `sd_id128_from_string`, with the bytes that are left to read:
    the bytes, where they end, and whether the form was that of a GUID. -/
def id128_loop : Nat → Nat → Nat → Bool → List UInt8 → Option (List UInt8 × Nat × Bool)
  | _, 0, i, is_guid, _ => some ([], i, is_guid)
  | 0, _ + 1, _, _, _ => none
  | fuel + 1, n + 1, i, is_guid, s =>
    match s with
    | [] => none
    | x :: s =>
      if x = 0x2d then
        if i = 8 then id128_loop fuel (n + 1) (i + 1) true s
        else if i = 13 || i = 18 || i = 23 then
          if is_guid then id128_loop fuel (n + 1) (i + 1) is_guid s else none
        else none
      else
        match s with
        | [] => none
        | y :: s =>
          match unhexchar x, unhexchar y with
          | some a, some b =>
            (id128_loop fuel n (i + 2) is_guid s).map fun (t, rest) => ((a <<< 4 ||| b) :: t, rest)
          | _, _ => none

/-- `tolower`, for a byte of ASCII. -/
def ascii_tolower (c : UInt8) : UInt8 := if 0x41 ≤ c && c ≤ 0x5a then c + 0x20 else c

/-- `sd_id128_from_string`; every round of its loop consumes a byte or more. -/
def sd_id128_from_string (s : List UInt8) : Outcome (List UInt8) :=
  let urn := ascii "urn:uuid:"
  let prefixed := (s.take urn.length).map ascii_tolower = urn
  let s := if prefixed then s.drop urn.length else s
  match id128_loop s.length 16 0 prefixed s with
  | none => .err .EINVAL
  | some (t, i, is_guid) =>
    if i ≠ (if is_guid then 36 else 32) then .err .EINVAL
    else if s.length ≠ i then .err .EINVAL
    else .ok t

example : sd_id128_from_string (ascii "0102030405060708090a0b0c0d0e0f10") =
    .ok [1, 2, 3, 4, 5, 6, 7, 8, 9, 10, 11, 12, 13, 14, 15, 16] := by decide +kernel

example : parse_pid (ascii " 0x10") = .ok 16 := by decide +kernel

end SdCompat
