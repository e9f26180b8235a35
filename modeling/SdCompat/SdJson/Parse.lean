import SdCompat.SdJson.Tokenize

/-! # The JSON parser (sd-json.c)

    `json_parse_internal` reads one token after the other and keeps a stack
    of the containers it is in, each with what it expects next. The current
    one is the first of the list here.
-/

namespace SdCompat.Json

open Errno

variable {R : Type}

/-- `JsonExpect`, of the parser. -/
inductive JsonExpect where
  | EXPECT_TOPLEVEL
  | EXPECT_END
  | EXPECT_OBJECT_FIRST_KEY
  | EXPECT_OBJECT_NEXT_KEY
  | EXPECT_OBJECT_COLON
  | EXPECT_OBJECT_VALUE
  | EXPECT_OBJECT_COMMA
  | EXPECT_ARRAY_FIRST_ELEMENT
  | EXPECT_ARRAY_NEXT_ELEMENT
  | EXPECT_ARRAY_COMMA
  deriving DecidableEq, Repr

/-- `JsonStack`: one entry of the parser's stack. -/
structure JsonStack (R : Type) where
  expect : JsonExpect
  elements : List (Variant R)
  deriving Repr

/-- The flags the parser looks at. -/
structure ParseFlags where
  must_be_object : Bool
  must_be_array : Bool
  deriving DecidableEq, Repr

/-- What one token comes to. -/
inductive Parsed (R : Type) where
  /-- The text is at its end, and this is the variant. -/
  | done (v : Variant R)
  | more (stack : List (JsonStack R))
  deriving Repr

namespace JsonExpect

/-- The values of `expect` with which a value other than a key may come. -/
def takes_value : JsonExpect → Bool
  | EXPECT_TOPLEVEL | EXPECT_OBJECT_VALUE | EXPECT_ARRAY_FIRST_ELEMENT
  | EXPECT_ARRAY_NEXT_ELEMENT => true
  | _ => false

/-- The values of `expect` with which a key may come. -/
def takes_key : JsonExpect → Bool
  | EXPECT_OBJECT_FIRST_KEY | EXPECT_OBJECT_NEXT_KEY => true
  | _ => false

/-- What is expected after the value or the key. -/
def after : JsonExpect → JsonExpect
  | EXPECT_TOPLEVEL => EXPECT_END
  | EXPECT_OBJECT_FIRST_KEY | EXPECT_OBJECT_NEXT_KEY => EXPECT_OBJECT_COLON
  | EXPECT_OBJECT_VALUE => EXPECT_OBJECT_COMMA
  | _ => EXPECT_ARRAY_COMMA

end JsonExpect

/-! ## Section 1: One token -/

/-- The new variant goes to the elements of the current entry. -/
def json_stack_add (current : JsonStack R) (add : Variant R) : JsonStack R :=
  { current with elements := current.elements ++ [add] }

/-- The cases of all values that are not containers: `add` is made, and
    `expect` is for what comes after it. -/
def json_parse_scalar (flags : ParseFlags) (takes : JsonExpect → Bool) (add : Outcome (Variant R))
    (current : JsonStack R) (below : List (JsonStack R)) : Outcome (Parsed R) :=
  if !takes current.expect then .err EINVAL
  else if below = [] && (flags.must_be_array || flags.must_be_object) then .err EINVAL
  else do
    let add ← add
    pure (.more (json_stack_add { current with expect := current.expect.after } add :: below))

/-- The cases `JSON_TOKEN_OBJECT_OPEN` and `JSON_TOKEN_ARRAY_OPEN`; `refused`
    is that the flags want the other kind of container. -/
def json_parse_open (refused : Bool) (first : JsonExpect) (current : JsonStack R)
    (below : List (JsonStack R)) : Outcome (Parsed R) :=
  if !current.expect.takes_value then .err EINVAL
  else if below = [] && refused then .err EINVAL
  -- n_stack includes the top level entry, hence > instead of >=
  else if DEPTH_MAX < below.length + 1 then .err ELNRNG
  else .ok (.more (⟨first, []⟩ :: { current with expect := current.expect.after } :: below))

/-- The cases `JSON_TOKEN_OBJECT_CLOSE` and `JSON_TOKEN_ARRAY_CLOSE`: the
    container is made, and added to the entry below. -/
def json_parse_close (first comma : JsonExpect) (new : List (Variant R) → Outcome (Variant R))
    (current : JsonStack R) (below : List (JsonStack R)) : Outcome (Parsed R) :=
  if current.expect = first ∨ current.expect = comma then
    match below with
    | [] => .abort      -- assert(n_stack > 1)
    | outer :: below => do
      let add ← new current.elements
      pure (.more (json_stack_add outer add :: below))
  else .err EINVAL

open JsonExpect

/-- The end of `json_parse_internal`: what is at the bottom of the stack. -/
def json_parse_done (current : JsonStack R) (below : List (JsonStack R)) : Outcome (Variant R) :=
  match current.elements, below with
  | [v], [] => .ok v
  | _, _ => .abort      -- assert(stack[0].n_elements == 1), assert(n_stack == 1)

/-- One round of the loop of `json_parse_internal`, on the token read. -/
def json_parse_token [Double R] (flags : ParseFlags) (current : JsonStack R)
    (below : List (JsonStack R)) : Token R → Outcome (Parsed R)
  | .end =>
    if current.expect ≠ EXPECT_END then .err EINVAL
    else do
      let v ← json_parse_done current below
      pure (.done v)
  | .colon =>
    if current.expect ≠ EXPECT_OBJECT_COLON then .err EINVAL
    else .ok (.more ({ current with expect := EXPECT_OBJECT_VALUE } :: below))
  | .comma =>
    if current.expect = EXPECT_OBJECT_COMMA then
      .ok (.more ({ current with expect := EXPECT_OBJECT_NEXT_KEY } :: below))
    else if current.expect = EXPECT_ARRAY_COMMA then
      .ok (.more ({ current with expect := EXPECT_ARRAY_NEXT_ELEMENT } :: below))
    else .err EINVAL
  | .object_open =>
    json_parse_open (flags.must_be_array && !flags.must_be_object) EXPECT_OBJECT_FIRST_KEY
      current below
  | .object_close =>
    json_parse_close EXPECT_OBJECT_FIRST_KEY EXPECT_OBJECT_COMMA sd_json_variant_new_object
      current below
  | .array_open =>
    json_parse_open (!flags.must_be_array && flags.must_be_object) EXPECT_ARRAY_FIRST_ELEMENT
      current below
  | .array_close =>
    json_parse_close EXPECT_ARRAY_FIRST_ELEMENT EXPECT_ARRAY_COMMA sd_json_variant_new_array
      current below
  | .string s =>
    json_parse_scalar flags (fun e => e.takes_value || e.takes_key)
      (sd_json_variant_new_string s) current below
  | .real x =>
    json_parse_scalar flags takes_value (.ok (sd_json_variant_new_real x)) current below
  | .integer i =>
    json_parse_scalar flags takes_value (.ok (sd_json_variant_new_integer i)) current below
  | .unsigned u =>
    json_parse_scalar flags takes_value (.ok (sd_json_variant_new_unsigned u)) current below
  | .boolean b =>
    json_parse_scalar flags takes_value (.ok (sd_json_variant_new_boolean b)) current below
  | .null =>
    json_parse_scalar flags takes_value (.ok sd_json_variant_new_null) current below

/-! ## Section 2: The loop -/

/-- The loop of `json_parse_internal`. Every round but the last consumes at
    least one byte. -/
def json_parse_loop [Double R] (flags : ParseFlags) (continue_end : Bool) :
    Nat → List UInt8 → TokenizerState → List (JsonStack R) → Outcome (Variant R × List UInt8)
  | 0, _, _, _ => .abort
  | _, _, _, [] => .abort       -- assert(n_stack > 0)
  | fuel + 1, p, state, current :: below =>
    if continue_end && current.expect = EXPECT_END then do
      let v ← json_parse_done current below
      pure (v, p)
    else do
      let (token, state, p) ← json_tokenize p state
      match ← json_parse_token flags current below token with
      | .done v => pure (v, p)
      | .more stack => json_parse_loop flags continue_end fuel p state stack

/-- `json_parse_internal`: the variant, and the text that is left. -/
def json_parse_internal [Double R] (input : List UInt8) (flags : ParseFlags) (continue_end : Bool) :
    Outcome (Variant R × List UInt8) :=
  json_parse_loop flags continue_end (input.length + 1) input .STATE_VALUE [⟨EXPECT_TOPLEVEL, []⟩]

/-- The C string that starts where these bytes do. -/
def cstring (bytes : List UInt8) : List UInt8 := bytes.takeWhile (· ≠ 0)

/-- `sd_json_parse`, on what the memory holds from `string` on. -/
def sd_json_parse [Double R] (string : List UInt8) (flags : ParseFlags) : Outcome (Variant R) :=
  if cstring string = [] then .err ENODATA
  else do
    let (v, _) ← json_parse_internal (cstring string) flags false
    pure v

end SdCompat.Json
