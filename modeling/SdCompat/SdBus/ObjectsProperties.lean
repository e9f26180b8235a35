import SdCompat.SdBus.ObjectsVtables

/-! # Get and GetAll (bus-objects.c)

    How a call of the interface `org.freedesktop.DBus.Properties` is answered:
    `bus_process_object` tries the node of the path, and after it, for what is
    registered as a fallback, the nodes of all prefixes.

    The callbacks of the program are parameters. None of them fails, or changes
    the object tree. What marks messages as sensitive is left out.
-/

namespace SdCompat.Objects

open Bus

/-! ## Section 1: Where an object is looked for -/

/-- The interface of the calls. -/
def PROPERTIES : List UInt8 := ascii "org.freedesktop.DBus.Properties"

/-- The interfaces that every object has. -/
def builtin_interface (interface : List UInt8) : Bool :=
  interface == PROPERTIES || interface == ascii "org.freedesktop.DBus.Peer" ||
    interface == ascii "org.freedesktop.DBus.Introspectable"

/-- `OBJECT_PATH_FOREACH_PREFIX` -/
def prefixes_at : Nat → Path → List Path
  | 0, _ => []
  | fuel + 1, path =>
    match parent_path path with
    | none => []
    | some r => r :: prefixes_at fuel r

def prefixes (path : Path) : List Path := prefixes_at path.length path

/-- A node that is tried, and whether only for fallbacks. -/
structure Place where
  node : Path
  require_fallback : Bool
  deriving DecidableEq, Repr

/-- The nodes that are tried for a path. -/
def places (path : Path) : List Place :=
  ⟨path, false⟩ :: (prefixes path).map fun p => ⟨p, true⟩

/-- `BusNodeVTable`, and the address of its slot. -/
structure BusNodeVTable where
  slot : SlotId
  is_fallback : Bool
  interface : List UInt8
  vtable : Vtable
  deriving DecidableEq, Repr

/-- The vtable of a slot: one that is registered has all of this. -/
def node_vtable (b : Objects) (s : SlotId) : Option BusNodeVTable :=
  (b.slots s).bind fun x => x.interface.bind fun interface => x.vtable.map fun vtable =>
    ⟨s, x.is_fallback, interface, vtable⟩

/-- What the list `n->vtables` has. -/
def vtables (b : Objects) (n : BusNode) : List BusNodeVTable :=
  (n.list .node_vtable).filterMap (node_vtable b)

/-- `is_fallback`, of a slot. -/
def is_fallback (b : Objects) (s : SlotId) : Bool := (b.slots s).any (·.is_fallback)

/-! ## Section 2: Calls and replies -/

/-- The calls, with what is read from them. -/
inductive PropertiesCall where
  | get (interface member : List UInt8)
  | get_all (interface : List UInt8)
  deriving DecidableEq, Repr

def PropertiesCall.member : PropertiesCall → List UInt8
  | .get _ _ => ascii "Get"
  | .get_all _ => ascii "GetAll"

/-- How a call ends: with what the callback of an object or a method has
    replied, or with a reply of the library. -/
inductive Reply (Val : Type) where
  | callback (s : SlotId)
  | method (m : BusVTableMember)
  | value (v : Val)
  | properties (l : List (List UInt8 × Val))
  | unknown_interface (interface : List UInt8)
  | unknown_property (interface property : List UInt8)
  | unknown_method (member interface : List UInt8)
  deriving DecidableEq, Repr

/-- What the callbacks do: whether `find` takes a path (it does where there is
    none), what `get` appends, whether the callback of an object has replied
    to a call, and what is done with a method. -/
structure Callbacks (Val : Type) where
  find : SlotId → Path → Bool
  get : SlotId → VtableEntry → Path → Val
  object : SlotId → PropertiesCall → Bool
  method : BusVTableMember → Place → Bool → Except (Reply Val) Bool

section code
variable {Val : Type} (env : Callbacks Val) (b : Objects) (path : Path)

/-- `node_callbacks_run`: the object may have been found, unless a callback has
    replied. -/
def node_callbacks_run (call : PropertiesCall) (require_fallback : Bool) :
    List SlotId → Bool → Except (Reply Val) Bool
  | [], found_object => .ok found_object
  | s :: callbacks, found_object =>
    if require_fallback && !is_fallback b s then
      node_callbacks_run call require_fallback callbacks found_object
    else if env.object s call then .error (.callback s)
    else node_callbacks_run call require_fallback callbacks true

/-- `set_get`, on a table of members. -/
def set_get (k : MemberKind) (key : Path × List UInt8 × List UInt8) : Option BusVTableMember :=
  (b.members k).find? fun m => m.key == key

/-- `property_get_set_callbacks_run`, for Get. -/
def property_get_callbacks_run (c : BusVTableMember) (require_fallback found_object : Bool) :
    Except (Reply Val) Bool :=
  if require_fallback && !is_fallback b c.parent then .ok found_object
  else if !env.find c.parent path then .ok found_object
  else .error (.value (env.get c.parent c.vtable path))

/-- An element is a property that `vtable_append_all_properties` appends. -/
def appended (signal : Bool) (v : VtableEntry) : Bool :=
  v.kind == some .property && !v.has_flag SD_BUS_VTABLE_HIDDEN &&
    !v.has_flag SD_BUS_VTABLE_PROPERTY_EXPLICIT &&
    !(signal && v.has_flag SD_BUS_VTABLE_PROPERTY_EMITS_INVALIDATION)

/-- `vtable_append_all_properties`, where the message is a signal or not. -/
def vtable_append_all_properties (signal : Bool) (c : BusNodeVTable) :
    List (List UInt8 × Val) :=
  if c.vtable.flags &&& SD_BUS_VTABLE_HIDDEN != 0 then []
  else (c.vtable.entries.filter (appended signal)).map fun v => (v.member, env.get c.slot v path)

/-- The variables of `property_get_all_callbacks_run`. -/
structure GetAll (Val : Type) where
  found_object : Bool
  found_interface : Bool
  reply : List (List UInt8 × Val)

/-- Its loop, for one vtable. An interface that is empty stands for all. -/
def property_get_all_vtable (require_fallback : Bool) (iface : List UInt8) (a : GetAll Val)
    (c : BusNodeVTable) : GetAll Val :=
  if require_fallback && !c.is_fallback then a
  else if !env.find c.slot path then a
  else if iface != [] && c.interface != iface then { a with found_object := true }
  else ⟨true, true, a.reply ++ vtable_append_all_properties env path false c⟩

/-- `property_get_all_callbacks_run` -/
def property_get_all_callbacks_run (first : List BusNodeVTable) (require_fallback : Bool)
    (iface : List UInt8) (found_object : Bool) : Except (Reply Val) Bool :=
  let a := first.foldl (property_get_all_vtable env path require_fallback iface)
    ⟨found_object, iface == [] || builtin_interface iface, []⟩
  if !a.found_object then .ok false
  else if !a.found_interface then .error (.unknown_interface iface)
  else .error (.properties a.reply)

/-- `bus_node_exists` -/
def bus_node_exists (n : BusNode) (require_fallback : Bool) : Bool :=
  !require_fallback &&
      (!(n.list .node_enumerator).isEmpty || !(n.list .node_object_manager).isEmpty) ||
    ((n.list .node_callback).any fun s => !(require_fallback && !is_fallback b s)) ||
    (vtables b n).any fun c => !(require_fallback && !c.is_fallback) && env.find c.slot path

/-- A method of the interface, if a vtable has one. -/
def method_run (call : PropertiesCall) (p : Place) (found_object : Bool) :
    Except (Reply Val) Bool :=
  match set_get b .method (p.node, PROPERTIES, call.member) with
  | none => .ok found_object
  | some v => env.method v p found_object

/-- Get or GetAll, at a node. -/
def property_run (call : PropertiesCall) (n : BusNode) (p : Place) (found_object : Bool) :
    Except (Reply Val) Bool :=
  match call with
  | .get interface member =>
    match set_get b .property (p.node, interface, member) with
    | none => .ok found_object
    | some v => property_get_callbacks_run env b path v p.require_fallback found_object
  | .get_all interface =>
    property_get_all_callbacks_run env path (vtables b n) p.require_fallback interface found_object

/-- `object_find_and_run` -/
def object_find_and_run (call : PropertiesCall) (p : Place) (found_object : Bool) :
    Except (Reply Val) Bool :=
  match b.nodes p.node with
  | none => .ok found_object
  | some n => do
    let found_object ← node_callbacks_run env b call p.require_fallback (n.list .node_callback)
      found_object
    let found_object ← method_run env b call p found_object
    let found_object ← property_run env b path call n p found_object
    .ok (found_object || bus_node_exists env b path n p.require_fallback)

/-- The nodes one after the other. -/
def find_and_run (call : PropertiesCall) : List Place → Bool → Except (Reply Val) Bool
  | [], found_object => .ok found_object
  | p :: ps, found_object => do
    let found_object ← object_find_and_run env b path call p found_object
    find_and_run call ps found_object

/-- `bus_process_object`, for a method call that is not a broadcast. There may
    be no object that it could reply for. -/
def bus_process_object (call : PropertiesCall) : Option (Reply Val) :=
  match find_and_run env b path call (places path) false with
  | .error r => some r
  | .ok false => none
  | .ok true =>
    match call with
    | .get interface property => some (.unknown_property interface property)
    | .get_all _ => some (.unknown_method call.member PROPERTIES)

end code

end SdCompat.Objects
