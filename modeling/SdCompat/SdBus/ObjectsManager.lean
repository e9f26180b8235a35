import SdCompat.SdBus.ObjectsGetAll

/-! # Object managers (bus-objects.c)

    What GetManagedObjects replies with, and what is in the signals
    InterfacesAdded and InterfacesRemoved. Each walks over the vtables of the
    node of a path and of all its prefixes on its own.

    An interface stands in a message with its properties. The callbacks do not
    fail or change the object tree; an enumerator may name what is not a path.
-/

namespace SdCompat.Objects

open Bus

/-- The callbacks, and those of the enumerators: the children below a path, in
    the order `strv_sort` gives. -/
structure ManagerCallbacks (Val : Type) extends Callbacks Val where
  enumerate : SlotId → Path → List Path

/-- Interfaces with their properties, as they stand in a message. -/
abbrev Interfaces (Val : Type) := List (List UInt8 × List (List UInt8 × Val))

/-- An object manager is at the node. -/
def BusNode.manages (n : BusNode) : Bool := !(n.list .node_object_manager).isEmpty

/-! ## Section 1: The children of a node -/

/-- `startswith` -/
def startswith : List UInt8 → List UInt8 → Option (List UInt8)
  | s, [] => some s
  | [], _ :: _ => none
  | a :: s, c :: t => if a = c then startswith s t else none

/-- `object_path_startswith`: whether it returns something. -/
def object_path_startswith (a b : Path) : Bool :=
  object_path_is_valid a && object_path_is_valid b &&
    (b == root ||
      match startswith a b with
      | none => false
      | some [] => true
      | some (c :: _) => c == 0x2f)

/-- `ordered_set_consume`, of a path that may be in the set already. -/
def ordered_set_consume (s : List Path) (k : Path) : List Path := if k ∈ s then s else s ++ [k]

section children
variable {Val : Type} (env : ManagerCallbacks Val) (b : Objects)

/-- What one enumerator adds to the set, unless something is not a path. -/
def add_children (path : Path) : List Path → List Path → Option (List Path)
  | [], s => some s
  | k :: children, s =>
    if !object_path_is_valid k then none
    else if !object_path_startswith k path then add_children path children s
    else add_children path children (ordered_set_consume s k)

/-- `add_enumerated_to_set` -/
def add_enumerated_to_set (path : Path) : List SlotId → List Path → Option (List Path)
  | [], s => some s
  | c :: enumerators, s =>
    match add_children path (env.enumerate c path) s with
    | none => none
    | some s => add_enumerated_to_set path enumerators s

/-- The siblings among which `add_subtree_to_set` calls itself, as `sub`. -/
def add_siblings_to_set (sub : BusNode → List Path → Outcome (List Path)) (path : Path) :
    List Path → List Path → Outcome (List Path)
  | [], s => .ok s
  | i :: siblings, s =>
    if !object_path_startswith i path then add_siblings_to_set sub path siblings s
    else
      match b.nodes i with
      | none => .abort
      | some n =>
        if n.manages then add_siblings_to_set sub path siblings (ordered_set_consume s i)
        else
          match sub n (ordered_set_consume s i) with
          | .ok s => add_siblings_to_set sub path siblings s
          | r => r

/-- `add_subtree_to_set`, with the flag `CHILDREN_RECURSIVE`. -/
def add_subtree_to_set (path : Path) : Nat → BusNode → List Path → Outcome (List Path)
  | 0, _, _ => .abort
  | fuel + 1, n, s =>
    match add_enumerated_to_set env path (n.list .node_enumerator) s with
    | none => .err .EINVAL
    | some s => add_siblings_to_set b (add_subtree_to_set path fuel) path n.child s

/-- No node is deeper than the slots are. -/
def Objects.depth (b : Objects) : Nat :=
  ((List.range b.next_slot).map fun s =>
    (((b.slots s).bind (·.node)).getD []).length).foldr max 0

/-- `get_child_nodes` -/
def get_child_nodes (path : Path) (n : BusNode) : Outcome (List Path) :=
  add_subtree_to_set env b path (b.depth + 1) n []

end children

/-! ## Section 2: GetManagedObjects -/

section serialize
variable {Val : Type} (env : ManagerCallbacks Val) (b : Objects) (path : Path)

/-- The interfaces every object has. -/
def builtin_interfaces (object_manager : Bool) : Interfaces Val :=
  [(ascii "org.freedesktop.DBus.Peer", []), (ascii "org.freedesktop.DBus.Introspectable", []),
    (ascii "org.freedesktop.DBus.Properties", [])] ++
    if object_manager then [(ascii "org.freedesktop.DBus.ObjectManager", [])] else []

/-- What `object_manager_serialize_path` has written: the interfaces that are
    closed, and the one that is open, which is `previous_interface`. -/
structure Serialized (Val : Type) where
  found_something : Bool
  closed : Interfaces Val
  current : Option (List UInt8 × List (List UInt8 × Val))

/-- The interfaces, when the last one has been closed. -/
def Serialized.interfaces (w : Serialized Val) : Interfaces Val := w.closed ++ w.current.toList

/-- The properties of one more vtable, in its interface. -/
def Serialized.add (w : Serialized Val) (interface : List UInt8)
    (properties : List (List UInt8 × Val)) : Serialized Val :=
  match w.current with
  | none => { w with current := some (interface, properties) }
  | some (previous_interface, l) =>
    if previous_interface = interface then { w with current := some (interface, l ++ properties) }
    else { w with closed := w.closed ++ [(previous_interface, l)],
                  current := some (interface, properties) }

/-- The loop of `object_manager_serialize_path`, for one vtable. -/
def object_manager_serialize_vtable (require_fallback found_object_manager : Bool)
    (w : Serialized Val) (i : BusNodeVTable) : Serialized Val :=
  if require_fallback && !i.is_fallback then w
  else if !env.find i.slot path then w
  else
    let w := if w.found_something then w
      else { w with found_something := true, closed := builtin_interfaces found_object_manager }
    w.add i.interface (vtable_append_all_properties env.toCallbacks path false i)

/-- `object_manager_serialize_path`: what it appends to the reply, and whether
    an object manager has been found. -/
def object_manager_serialize_path (p : Place) (found_object_manager : Bool) :
    List (Path × Interfaces Val) × Bool :=
  match b.nodes p.node with
  | none => ([], found_object_manager)
  | some n =>
    let found_object_manager := found_object_manager || !p.require_fallback && n.manages
    let w := (vtables b n).foldl
      (object_manager_serialize_vtable env path p.require_fallback found_object_manager)
      ⟨false, [], none⟩
    (if w.found_something then [(path, w.interfaces)] else [], found_object_manager)

/-- `object_manager_serialize_path_and_fallbacks` -/
def serialize_places : List Place → Bool → List (Path × Interfaces Val)
  | [], _ => []
  | p :: ps, found_object_manager =>
    let (l, found_object_manager) := object_manager_serialize_path env b path p found_object_manager
    l ++ serialize_places ps found_object_manager

def object_manager_serialize_path_and_fallbacks : List (Path × Interfaces Val) :=
  serialize_places env b path (places path) false

/-- `process_get_managed_objects`, for the node of the path itself. -/
def process_get_managed_objects : Outcome (Option (List (Path × Interfaces Val))) :=
  match b.nodes path with
  | none => .ok none
  | some n =>
    if !n.manages then .ok none
    else
      match get_child_nodes env b path n with
      | .ok s => .ok (some (s.flatMap fun path =>
          object_manager_serialize_path_and_fallbacks env b path))
      | .err e => .err e
      | .abort => .abort

end serialize

/-! ## Section 3: The signals -/

section signals
variable {Val : Type} (env : ManagerCallbacks Val) (b : Objects) (path : Path)

/-- The loop of `bus_find_parent_object_manager`. -/
def find_object_manager : Nat → Path → Option Path
  | 0, _ => none
  | fuel + 1, p =>
    match b.nodes p with
    | none => none
    | some n => if n.manages then some p else n.parent.bind (find_object_manager fuel)

/-- `bus_find_parent_object_manager`: the node of the object manager, and
    whether the path has one itself. -/
def bus_find_parent_object_manager : Option Path × Bool :=
  (((path :: prefixes path).find? fun p => (b.nodes p).isSome).bind fun p =>
      find_object_manager b (p.length + 1) p,
    (b.nodes path).any (·.manages))

/-- What `object_added_append_all_prefix` has written, and the interfaces that
    have been handled. -/
structure Added (Val : Type) where
  handled : List (List UInt8)
  written : Serialized Val

/-- The loop of `object_added_append_all_prefix`, for one vtable. -/
def object_added_vtable (require_fallback : Bool) (a : Added Val) (c : BusNodeVTable) : Added Val :=
  if require_fallback && !c.is_fallback then a
  else if !env.find c.slot path then a
  else
    let properties := vtable_append_all_properties env.toCallbacks path true c
    if a.written.current.map (·.1) = some c.interface then
      { a with written := a.written.add c.interface properties }
    else if c.interface ∈ a.handled then a
    else ⟨a.handled ++ [c.interface], a.written.add c.interface properties⟩

/-- What InterfacesAdded does with a vtable that applies. -/
def added_vtable (env : ManagerCallbacks Val) (path : Path) (a : Added Val) (c : BusNodeVTable) :
    Added Val :=
  let properties := vtable_append_all_properties env.toCallbacks path true c
  if a.written.current.map (·.1) = some c.interface then
    { a with written := a.written.add c.interface properties }
  else if c.interface ∈ a.handled then a
  else ⟨a.handled ++ [c.interface], a.written.add c.interface properties⟩

/-- `object_added_append_all_prefix`: what it appends, and what has been
    handled then. -/
def object_added_append_all_prefix (p : Place) (handled : List (List UInt8)) :
    Interfaces Val × List (List UInt8) :=
  match b.nodes p.node with
  | none => ([], handled)
  | some n =>
    let a := (vtables b n).foldl (object_added_vtable env path p.require_fallback)
      ⟨handled, ⟨true, [], none⟩⟩
    (a.written.interfaces, a.handled)

def added_places : List Place → List (List UInt8) → Interfaces Val
  | [], _ => []
  | p :: ps, handled =>
    let (l, handled) := object_added_append_all_prefix env b path p handled
    l ++ added_places ps handled

/-- `object_added_append_all` -/
def object_added_append_all (path_has_object_manager : Bool) : Interfaces Val :=
  builtin_interfaces path_has_object_manager ++ added_places env b path (places path) []

/-- `sd_bus_emit_object_added`: the node the signal comes from, and the
    interfaces in it, if there is an object manager. -/
def sd_bus_emit_object_added : Option (Path × Interfaces Val) :=
  let (object_manager, path_has_object_manager) := bus_find_parent_object_manager b path
  object_manager.map fun p => (p, object_added_append_all env b path path_has_object_manager)

/-- The variables of `object_removed_append_all_prefix`, and the names of the
    interfaces it has appended. -/
structure Removed where
  handled : List (List UInt8)
  previous_interface : Option (List UInt8)
  names : List (List UInt8)

/-- The loop of `object_removed_append_all_prefix`, for one vtable. -/
def object_removed_vtable (require_fallback : Bool) (a : Removed) (c : BusNodeVTable) : Removed :=
  if require_fallback && !c.is_fallback then a
  else if a.previous_interface = some c.interface then a
  else if c.interface ∈ a.handled then a
  else if !env.find c.slot path then a
  else ⟨a.handled ++ [c.interface], some c.interface, a.names ++ [c.interface]⟩

/-- What InterfacesRemoved does with a vtable that applies. -/
def removed_vtable (a : Removed) (c : BusNodeVTable) : Removed :=
  if a.previous_interface = some c.interface then a
  else if c.interface ∈ a.handled then a
  else ⟨a.handled ++ [c.interface], some c.interface, a.names ++ [c.interface]⟩

/-- `object_removed_append_all_prefix` -/
def object_removed_append_all_prefix (p : Place) (handled : List (List UInt8)) :
    List (List UInt8) × List (List UInt8) :=
  match b.nodes p.node with
  | none => ([], handled)
  | some n =>
    let a := (vtables b n).foldl (object_removed_vtable env path p.require_fallback)
      ⟨handled, none, []⟩
    (a.names, a.handled)

def removed_places : List Place → List (List UInt8) → List (List UInt8)
  | [], _ => []
  | p :: ps, handled =>
    let (l, handled) := object_removed_append_all_prefix env b path p handled
    l ++ removed_places ps handled

/-- `object_removed_append_all` -/
def object_removed_append_all (path_has_object_manager : Bool) : List (List UInt8) :=
  (@builtin_interfaces Val path_has_object_manager).map (·.1) ++
    removed_places env b path (places path) []

/-- `sd_bus_emit_object_removed` -/
def sd_bus_emit_object_removed : Option (Path × List (List UInt8)) :=
  let (object_manager, path_has_object_manager) := bus_find_parent_object_manager b path
  object_manager.map fun p => (p, object_removed_append_all env b path path_has_object_manager)

end signals

end SdCompat.Objects
