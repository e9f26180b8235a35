import SdCompat.Lib.Memory
import SdCompat.Basic.Call
import SdCompat.Basic.ParseUtil
import SdCompat.SdBus.Match

/-! # Parsing a match rule (bus-match.c)

    `bus_match_parse` reads pairs of a key and a value, sorts them by the type
    of the key, and refuses a type that is there twice. What it allocates is
    the array of components and the string of each value.
-/

namespace SdCompat.Match

open Call

/-! ## Section 1: Keys -/

/-- `undecchar` -/
def undecchar (c : UInt8) : Option Nat := if isdigit c then some (c.toNat - 0x30) else none

/-- The index of an argument in one digit, at `k[3]`. -/
def arg_digit (k : List UInt8) : Option (Fin 64) := do
  let j ← undecchar (k.getD 3 0)
  if h : j < 64 then some ⟨j, h⟩ else none

/-- The index in two digits, the first of which is not 0. -/
def arg_digits (k : List UInt8) : Option (Fin 64) := do
  let a ← undecchar (k.getD 3 0)
  let b ← undecchar (k.getD 4 0)
  if h : 0 < a ∧ a * 10 + b < 64 then some ⟨a * 10 + b, h.2⟩ else none

/-- `startswith`, as a condition. -/
def starts (k : List UInt8) (token : String) : Bool := (memory_startswith k (ascii token)).isSome

/-- `bus_match_node_type_from_string`, of the first `n` bytes at `k`. -/
def bus_match_node_type_from_string (k : List UInt8) (n : Nat) : Option BusMatchNodeType :=
  if n = 4 && starts k "type" then some .message_type
  else if n = 6 && starts k "sender" then some .sender
  else if n = 11 && starts k "destination" then some .destination
  else if n = 9 && starts k "interface" then some .interface
  else if n = 6 && starts k "member" then some .member
  else if n = 4 && starts k "path" then some .path
  else if n = 14 && starts k "path_namespace" then some .path_namespace
  else if n = 4 && starts k "arg" then (arg_digit k).map .arg
  else if n = 5 && starts k "arg" then (arg_digits k).map .arg
  else if n = 8 && starts k "arg" && starts (k.drop 4) "path" then (arg_digit k).map .arg_path
  else if n = 9 && starts k "arg" && starts (k.drop 5) "path" then (arg_digits k).map .arg_path
  else if n = 13 && starts k "arg" && starts (k.drop 4) "namespace" then
    (arg_digit k).map .arg_namespace
  else if n = 14 && starts k "arg" && starts (k.drop 5) "namespace" then
    (arg_digits k).map .arg_namespace
  else if n = 7 && starts k "arg" && starts (k.drop 4) "has" then (arg_digit k).map .arg_has
  else if n = 8 && starts k "arg" && starts (k.drop 5) "has" then (arg_digits k).map .arg_has
  else none

/-- The numbers of `BusMatchNodeType`. -/
def BusMatchNodeType.num : BusMatchNodeType → Nat
  | .sender => 3
  | .message_type => 4
  | .destination => 5
  | .interface => 6
  | .member => 7
  | .path => 8
  | .path_namespace => 9
  | .arg i => 10 + i
  | .arg_path i => 74 + i
  | .arg_namespace i => 138 + i
  | .arg_has i => 202 + i

/-- `bus_message_type_from_string` -/
def bus_message_type_from_string (s : List UInt8) : Outcome UInt8 :=
  if s = ascii "signal" then .ok 4
  else if s = ascii "method_call" then .ok 1
  else if s = ascii "error" then .ok 3
  else if s = ascii "method_return" then .ok 2
  else .err .EINVAL

/-! ## Section 2: Allocations -/

/-- The memory, and which of the allocations succeed. -/
structure Heap where
  memory : Memory PUnit
  count : Nat
  succeeds : Nat → Bool

/-- `malloc` -/
def malloc : Call Heap Nat := fun h =>
  if h.succeeds h.count then
    (.ok h.memory.next, { h with memory := h.memory.alloc ⟨⟩, count := h.count + 1 })
  else (.err .ENOMEM, { h with count := h.count + 1 })

/-- `GREEDY_REALLOC`: a block that was there before stays when there is no
    memory, and is the same block when there is. -/
def greedy_realloc : Option Nat → Call Heap Nat
  | none => malloc
  | some p => fun h =>
    if h.succeeds h.count then
      (.ok p, { h with memory := h.memory.touch p, count := h.count + 1 })
    else (.err .ENOMEM, { h with count := h.count + 1 })

/-- `free` -/
def free : Option Nat → Call Heap PUnit
  | none => pure ⟨⟩
  | some p => modify fun h => { h with memory := h.memory.free p }

/-! ## Section 3: The parser -/

/-- A component as it is parsed, and the block of `value_str`, if it has one. -/
structure ParsedComponent where
  component : BusMatchComponent
  value_str : Option Nat
  deriving DecidableEq

/-- `bus_match_parse_free` -/
def bus_match_parse_free (components : Option Nat) : List ParsedComponent → Call Heap PUnit
  | [] => free components
  | c :: cs => do
    free c.value_str
    bus_match_parse_free components cs

/-- What ends a value that is not escaped. -/
def value_end (quoted : Bool) : UInt8 := if quoted then 0x27 else 0x2c

/-- The loop over a value: its block, its bytes, and what is behind it. -/
def value_loop (quoted : Bool) :
    Bool → Option Nat → List UInt8 → List UInt8 → Call Heap (Option Nat × List UInt8 × List UInt8)
  | _, value, r, [] =>
    if quoted then cleanup (fail .EINVAL) (free value) else pure (value, r, [])
  | escaped, value, r, c :: q =>
    if !escaped && c = 0x5c then value_loop quoted true value r q
    else if !escaped && c = value_end quoted then pure (value, r, if quoted then q else c :: q)
    else do
      let value ← cleanup (greedy_realloc value) (free value)
      value_loop quoted false (some value) (r ++ [c]) q

/-- `if (!value) value = strdup("")` -/
def value_or_empty : Option Nat → Call Heap Nat
  | some value => pure value
  | none => malloc

/-- The component of a type and a value. -/
def make_component (t : BusMatchNodeType) (value : Nat) (r : List UInt8) :
    Call Heap ParsedComponent :=
  if t = .message_type then do
    let u ← cleanup (lift (bus_message_type_from_string r)) (free (some value))
    free (some value)
    pure ⟨⟨t, ⟨u, []⟩⟩, none⟩
  else pure ⟨⟨t, ⟨0, r⟩⟩, some value⟩

/-- The start of a round: the type of the key, and what is behind the equals
    sign. -/
def read_key (text : List UInt8) : Outcome (BusMatchNodeType × List UInt8) :=
  let k := text.dropWhile (· = 0x20)
  let n := (k.takeWhile (· ≠ 0x3d)).length
  if k.contains 0x3d then
    match bus_match_node_type_from_string k n with
    | some t => .ok (t, k.drop (n + 1))
    | none => .err .EINVAL
  else .err .EINVAL

/-- The rest of a round: the component, and what is behind it. -/
def read_component (t : BusMatchNodeType) (p : List UInt8) :
    Call Heap (ParsedComponent × List UInt8) := do
  let quoted : Bool := p.head? = some 0x27
  let (value, r, rest) ← value_loop quoted false none [] (if quoted then p.tail else p)
  let value ← value_or_empty value
  let c ← make_component t value r
  pure (c, rest)

/-- The next component, and what is behind it. -/
def parse_component (text : List UInt8) : Call Heap (ParsedComponent × List UInt8) := do
  let (t, p) ← lift (read_key text)
  read_component t p

/-- The loop of `bus_match_parse`: the array and the components in it. -/
def parse_loop : Nat → Option Nat → List ParsedComponent → List UInt8 →
    Call Heap (Option Nat × List ParsedComponent)
  | _, components, cs, [] => pure (components, cs)
  | 0, _, _, _ :: _ => abort
  | fuel + 1, components, cs, b :: text => do
    let (c, rest) ← cleanup (parse_component (b :: text)) (bus_match_parse_free components cs)
    let components ← cleanup (greedy_realloc components)
      (bus_match_parse_free components (c :: cs))
    let cs := cs ++ [c]
    match rest with
    | [] => pure (some components, cs)
    | d :: rest =>
      if d = 0x2c then parse_loop fuel (some components) cs rest
      else cleanup (fail .EINVAL) (bus_match_parse_free (some components) cs)

/-- `match_component_compare`, for the sorting. -/
def match_component_le (a b : ParsedComponent) : Bool :=
  a.component.type.num ≤ b.component.type.num

/-- Whether a type is there twice, one right after the other. -/
def duplicates : List ParsedComponent → Bool
  | a :: b :: cs => a.component.type = b.component.type || duplicates (b :: cs)
  | _ => false

/-- `bus_match_parse` -/
def bus_match_parse (text : List UInt8) : Call Heap (Option Nat × List ParsedComponent) := do
  let (components, cs) ← parse_loop text.length none [] text
  let cs := cs.mergeSort match_component_le
  if duplicates cs then
    cleanup (fail .EINVAL) (bus_match_parse_free components cs)
  else pure (components, cs)

end SdCompat.Match
