import SdCompat.Basic.Common

/-! # The match tree (bus-match.c, bus-internal.c)

    Rules share the nodes of their common components. Below the root, and
    below each value node, stands a list of leaves and compare nodes; below
    each compare node stand its value nodes, in a hash table or in a list.
-/

universe u

namespace SdCompat.Match

/-! ## Section 1: Components and messages -/

/-- `BusMatchNodeType`, the compare nodes. -/
inductive BusMatchNodeType where
  | sender
  | message_type
  | destination
  | interface
  | member
  | path
  | path_namespace
  | arg (i : Fin 64)
  | arg_path (i : Fin 64)
  | arg_namespace (i : Fin 64)
  | arg_has (i : Fin 64)
  deriving DecidableEq, Repr

/-- `BUS_MATCH_CAN_HASH` -/
def BUS_MATCH_CAN_HASH : BusMatchNodeType → Bool
  | .message_type | .destination | .interface | .member | .path => true
  | .arg _ | .arg_has _ => true
  | _ => false

/-- The value of a value node, and of a component: a byte in case of the
    message type, else a string. -/
structure BusMatchValue where
  u8 : UInt8
  str : List UInt8
  deriving DecidableEq, Repr

/-- `BusMatchComponent` -/
structure BusMatchComponent where
  type : BusMatchNodeType
  value : BusMatchValue
  deriving DecidableEq, Repr

/-- An argument of a message, as far as matching looks at it. An argument
    that cannot be read is one of the others. -/
inductive MessageArg where
  /-- A string, an object path or a signature. -/
  | str (s : List UInt8)
  /-- An array of these. -/
  | strv (l : List (List UInt8))
  | other
  deriving DecidableEq, Repr

/-- What matching reads of a (sealed) `sd_bus_message`. -/
structure MatchMessage where
  type : UInt8
  sender : Option (List UInt8)
  destination : Option (List UInt8)
  interface : Option (List UInt8)
  member : Option (List UInt8)
  path : Option (List UInt8)
  /-- `creds.well_known_names`, when the mask has them. -/
  well_known_names : Option (List (List UInt8))
  args : List MessageArg
  read_counter : Nat
  deriving DecidableEq, Repr

/-- `bus_message_get_arg_skip`: nothing is found behind an argument that is
    not understood. -/
def bus_message_get_arg_skip : List MessageArg → Nat → Option MessageArg
  | [], _ => none
  | .other :: _, _ => none
  | a :: _, 0 => some a
  | _ :: rest, i + 1 => bus_message_get_arg_skip rest i

/-- `bus_message_get_arg` -/
def bus_message_get_arg (m : MatchMessage) (i : Nat) : Option (List UInt8) :=
  match bus_message_get_arg_skip m.args i with
  | some (.str s) => some s
  | _ => none

/-- `bus_message_get_arg_strv` -/
def bus_message_get_arg_strv (m : MatchMessage) (i : Nat) : Option (List (List UInt8)) :=
  match bus_message_get_arg_skip m.args i with
  | some (.strv l) => some l
  | _ => none

/-! ## Section 2: Tests -/

/-- The loop of `simple_pattern_check`, on the NUL-terminated rest of both
    strings. -/
def simple_pattern_check (c : UInt8) (separator : Bool) : List UInt8 → List UInt8 → Bool
  | [], [] => true
  | [], y :: _ => y == c || separator
  | _ :: _, [] => false
  | x :: a, y :: b => if x ≠ y then false else simple_pattern_check c (x == c) a b

/-- The loop of `complex_pattern_check`. -/
def complex_pattern_check (c : UInt8) (separator : Bool) : List UInt8 → List UInt8 → Bool
  | [], [] => true
  | [], _ :: _ => separator
  | _ :: _, [] => separator
  | x :: a, y :: b => if x ≠ y then false else complex_pattern_check c (x == c) a b

/-- `namespace_simple_pattern` -/
def namespace_simple_pattern (pattern value : List UInt8) : Bool :=
  simple_pattern_check 0x2e false pattern value

/-- `path_simple_pattern`; a missing value does not match. -/
def path_simple_pattern (pattern : List UInt8) : Option (List UInt8) → Bool
  | none => false
  | some value => simple_pattern_check 0x2f false pattern value

/-- `path_complex_pattern` -/
def path_complex_pattern (pattern value : List UInt8) : Bool :=
  complex_pattern_check 0x2f false pattern value

/-- What a compare node takes from the message: `test_u8`, `test_str` and
    `test_strv`. -/
structure TestValues where
  u8 : UInt8
  str : Option (List UInt8)
  strv : Option (List (List UInt8))

/-- The values `bus_match_run` tests the children of a compare node with. -/
def test_values (m : MatchMessage) : BusMatchNodeType → TestValues
  | .message_type => ⟨m.type, none, none⟩
  | .sender => ⟨0, m.sender, none⟩
  | .destination => ⟨0, m.destination, none⟩
  | .interface => ⟨0, m.interface, none⟩
  | .member => ⟨0, m.member, none⟩
  | .path => ⟨0, m.path, none⟩
  | .path_namespace => ⟨0, m.path, none⟩
  | .arg i => ⟨0, bus_message_get_arg m i, none⟩
  | .arg_path i => ⟨0, bus_message_get_arg m i, none⟩
  | .arg_namespace i => ⟨0, bus_message_get_arg m i, none⟩
  | .arg_has i => ⟨0, none, bus_message_get_arg_strv m i⟩

/-- `value_node_test` -/
def value_node_test (v : BusMatchValue) (parent_type : BusMatchNodeType) (t : TestValues)
    (m : MatchMessage) : Bool :=
  match parent_type with
  | .message_type => v.u8 == t.u8
  | .sender =>
    if some v.str = t.str then true
    else
      match m.well_known_names with
      | some names => names.contains v.str
      | none =>
        -- without the names of the sender, trust the bus daemon
        v.str.headD 0 != 0x3a && (t.str.any fun s => s.headD 0 == 0x3a)
  | .destination | .interface | .member | .path | .arg _ => some v.str = t.str
  | .arg_has _ => (t.strv.getD []).contains v.str
  | .arg_namespace _ =>
    match t.str with
    | some s => namespace_simple_pattern v.str s
    | none => false
  | .path_namespace => path_simple_pattern v.str t.str
  | .arg_path _ =>
    match t.str with
    | some s => path_complex_pattern v.str s
    | none => false

/-- The component's own test. -/
def BusMatchComponent.test (c : BusMatchComponent) (m : MatchMessage) : Bool :=
  value_node_test c.value c.type (test_values m c.type) m

/-- Two values name the same value node below a compare node of this type:
    `value_node_same`, and equality of the keys in the hash table. -/
def value_node_same (parent_type : BusMatchNodeType) (v w : BusMatchValue) : Bool :=
  if parent_type = .message_type then v.u8 == w.u8 else v.str == w.str

/-! ## Section 3: The tree -/

mutual

/-- What stands below the root or below a value node, in the order of the
    list. -/
inductive Nodes (ι : Type u) where
  | nil
  | leaf (callback : ι) (next : Nodes ι)
  | compare (type : BusMatchNodeType) (children : Values ι) (next : Nodes ι)

/-- The value nodes below a compare node. -/
inductive Values (ι : Type u) where
  | nil
  | value (v : BusMatchValue) (child : Nodes ι) (next : Values ι)

end

variable {ι : Type u}

/-- Change the first compare node of the given type, if there is one. -/
def Nodes.update (t : BusMatchNodeType) (f : Values ι → Values ι) : Nodes ι → Option (Nodes ι)
  | .nil => none
  | .leaf cb next => (update t f next).map (.leaf cb)
  | .compare t' children next =>
    if t' = t then some (.compare t' (f children) next)
    else (update t f next).map (.compare t' children)

/-- Change what stands below the value node of this value, if there is one. -/
def Values.update (t : BusMatchNodeType) (v : BusMatchValue) (f : Nodes ι → Nodes ι) :
    Values ι → Option (Values ι)
  | .nil => none
  | .value w child next =>
    if value_node_same t w v then some (.value w (f child) next)
    else (update t v f next).map (.value w child)

/-- `bus_match_add_compare_value`, and what is done below the value node it
    returns; new nodes are put in front. -/
def bus_match_add_compare_value (c : BusMatchComponent) (below : Nodes ι → Nodes ι)
    (nodes : Nodes ι) : Nodes ι :=
  match nodes.update c.type fun children =>
      (children.update c.type c.value below).getD (.value c.value (below .nil) children) with
  | some nodes => nodes
  | none => .compare c.type (.value c.value (below .nil) .nil) nodes

/-- `bus_match_add`, when its nodes can be allocated. -/
def bus_match_add (cb : ι) : List BusMatchComponent → Nodes ι → Nodes ι
  | [], nodes => .leaf cb nodes
  | c :: components, nodes => bus_match_add_compare_value c (bus_match_add cb components) nodes

section remove
variable [DecidableEq ι]

mutual

/-- `bus_match_remove`: free the leaf of the callback, and the nodes above it
    that have no child left. -/
def bus_match_remove (cb : ι) : Nodes ι → Option (Nodes ι)
  | .nil => none
  | .leaf cb' next =>
    if cb' = cb then some next else (bus_match_remove cb next).map (.leaf cb')
  | .compare t children next =>
    match bus_match_remove_below cb children with
    | some .nil => some next
    | some children => some (.compare t children next)
    | none => (bus_match_remove cb next).map (.compare t children)

/-- The same among value nodes. -/
def bus_match_remove_below (cb : ι) : Values ι → Option (Values ι)
  | .nil => none
  | .value v child next =>
    match bus_match_remove cb child with
    | some .nil => some next
    | some child => some (.value v child next)
    | none => (bus_match_remove_below cb next).map (.value v child)

end

end remove

/-! ## Section 4: Running -/

/-- `BusMatchCallback`, and whether its function is set. -/
structure BusMatchCallback where
  callback : Bool
  /-- `install_slot`: the AddMatch() call is not complete yet. -/
  install_slot : Bool
  after : Nat
  last_iteration : Nat
  deriving DecidableEq, Repr

/-- What changes while the tree is run, and the callbacks invoked so far. -/
structure RunState (ι : Type u) where
  callbacks : ι → BusMatchCallback
  match_callbacks_modified : Bool
  invoked : List ι

/-- What a callback does, as far as running the tree depends on it. -/
structure CallbackEffect where
  result : Int
  error_set : Bool
  modifies : Bool

/-- The surroundings of a run; `bus` is the bus's `iteration_counter`, if
    there is a bus. -/
structure RunEnv (ι : Type u) where
  bus : Option Nat
  effect : ι → CallbackEffect

/-- `bus_maybe_reply_error`, what it returns. -/
def bus_maybe_reply_error (e : CallbackEffect) : Int :=
  if e.error_set || e.result < 0 then 1 else e.result

/-- The leaf is not run: its AddMatch() call is not complete, it was installed
    after the message arrived, or it was run in this iteration. -/
def leaf_skipped (env : RunEnv ι) (m : MatchMessage) (c : BusMatchCallback) : Bool :=
  match env.bus with
  | none => false
  | some iteration_counter =>
    c.install_slot || m.read_counter ≤ c.after || c.last_iteration = iteration_counter

/-- The callback is marked as run in this iteration. -/
def mark_iteration [DecidableEq ι] (env : RunEnv ι) (cb : ι) (st : RunState ι) : RunState ι :=
  match env.bus with
  | none => st
  | some iteration_counter =>
    { st with callbacks := fun i =>
        if i = cb then { st.callbacks cb with last_iteration := iteration_counter }
        else st.callbacks i }

/-- `bus_match_run` on a leaf, without its siblings. -/
def run_leaf [DecidableEq ι] (env : RunEnv ι) (m : MatchMessage) (cb : ι) (st : RunState ι) :
    Int × RunState ι :=
  if leaf_skipped env m (st.callbacks cb) then (0, st)
  else
    let st := mark_iteration env cb st
    if (st.callbacks cb).callback then
      (bus_maybe_reply_error (env.effect cb),
        { st with
          invoked := st.invoked ++ [cb]
          match_callbacks_modified :=
            st.match_callbacks_modified || (env.bus.isSome && (env.effect cb).modifies) })
    else
      (0, st)

/-- Go on unless there was a result or the callbacks were modified. -/
def andThen (x : Outcome Int × RunState ι) (next : RunState ι → Outcome Int × RunState ι) :
    Outcome Int × RunState ι :=
  match x with
  | (.ok 0, st) => if st.match_callbacks_modified then (.ok 0, st) else next st
  | x => x

/-- Which value nodes a compare node runs: the one found in the hash table,
    or all that pass a test. -/
inductive Pick where
  | found (same : BusMatchValue → Bool)
  | all (test : BusMatchValue → Bool)

/-- What `bus_match_run` looks up or tests below a compare node, one after the
    other. -/
def picks (m : MatchMessage) (t : BusMatchNodeType) : List Pick :=
  let tv := test_values m t
  if BUS_MATCH_CAN_HASH t then
    match tv.str, tv.strv with
    | some s, _ => [.found fun v => v.str == s]
    | none, some l => l.map fun s => .found fun v => v.str == s
    | none, none => if t = .message_type then [.found fun v => v.u8 == tv.u8] else []
  else
    [.all fun v => value_node_test v t tv m]

mutual

/-- `bus_match_run` on what stands below the root or a value node. -/
def bus_match_run [DecidableEq ι] (env : RunEnv ι) (m : MatchMessage) :
    Nodes ι → RunState ι → Outcome Int × RunState ι
  | .nil, st => (.ok 0, st)
  | .leaf cb next, st =>
    if st.match_callbacks_modified then (.ok 0, st)
    else
      let (r, st) := run_leaf env m cb st
      andThen (.ok r, st) (bus_match_run env m next)
  | .compare t children next, st =>
    if st.match_callbacks_modified then (.ok 0, st)
    else
      andThen
        ((picks m t).foldl (fun x p => andThen x (bus_match_run_values env m children p))
          (.ok 0, st))
        (bus_match_run env m next)

/-- `bus_match_run` on the value nodes that are picked; each has a child. -/
def bus_match_run_values [DecidableEq ι] (env : RunEnv ι) (m : MatchMessage) :
    Values ι → Pick → RunState ι → Outcome Int × RunState ι
  | .nil, _, st => (.ok 0, st)
  | .value v child next, .found same, st =>
    if same v then
      match child with
      | .nil => (.abort, st)
      | child => bus_match_run env m child st
    else bus_match_run_values env m next (.found same) st
  | .value v child next, .all test, st =>
    if test v then
      andThen
        (match child with
          | .nil => (.abort, st)
          | child => bus_match_run env m child st)
        (bus_match_run_values env m next (.all test))
    else bus_match_run_values env m next (.all test) st

end

end SdCompat.Match
