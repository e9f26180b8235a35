import SdCompat.Basic.Call
import SdCompat.SdBus.Type

/-! # The object tree (bus-objects.c, bus-slot.c)

    The nodes of the object tree, what is registered at them, and the tables of
    the methods and properties of the vtables. Nodes are found by their path,
    slots by their address.

    Of each call, `memory` tells how often it can allocate before that fails.
    A string that is NULL is taken for one that is empty, as the code does.
-/

namespace SdCompat.Objects

open Bus Call

/-! ## Section 1: Paths -/

abbrev Path := List UInt8

/-- The path of the root. -/
def root : Path := [0x2f]

/-- `strrchr`, as an index. -/
def strrchr (c : UInt8) : List UInt8 → Option Nat
  | [] => none
  | x :: s =>
    match strrchr c s with
    | some i => some (i + 1)
    | none => if x = c then some 0 else none

/-- The path of the parent of a node: what is before the last slash, or the
    root. -/
def parent_path (path : Path) : Option Path :=
  if path = root then none
  else (strrchr 0x2f path).map fun e => path.take (max 1 e)

/-! ## Section 2: Vtables -/

inductive VtableType where
  | method | signal | property | writable_property | other
  deriving DecidableEq, Repr

def SD_BUS_VTABLE_HIDDEN : UInt64 := 0x2
def SD_BUS_VTABLE_UNPRIVILEGED : UInt64 := 0x4
def SD_BUS_VTABLE_METHOD_NO_REPLY : UInt64 := 0x8
def SD_BUS_VTABLE_PROPERTY_CONST : UInt64 := 0x10
def SD_BUS_VTABLE_PROPERTY_EMITS_CHANGE : UInt64 := 0x20
def SD_BUS_VTABLE_PROPERTY_EMITS_INVALIDATION : UInt64 := 0x40
def SD_BUS_VTABLE_PROPERTY_EXPLICIT : UInt64 := 0x80

def _SD_BUS_VTABLE_PARAM_NAMES : UInt64 := 1

/-- The size of `sd_bus_vtable` up to v241, and from v242 on. -/
def VTABLE_ELEMENT_SIZE_221 : Nat := 48
def VTABLE_ELEMENT_SIZE_242 : Nat := 56

/-- An element of a vtable. Of the functions it matters only whether there are
    any. The names of the arguments stand one after the other. -/
structure VtableEntry where
  type : VtableType
  flags : UInt64
  member : List UInt8
  signature : List UInt8
  result : List UInt8
  names : List (List UInt8)
  handler : Bool
  get : Bool
  set : Bool
  deriving DecidableEq, Repr

def VtableEntry.has_flag (v : VtableEntry) (flag : UInt64) : Bool := v.flags &&& flag != 0

/-- A vtable: where it is, its first element, and those between the first and
    the last. -/
structure Vtable where
  address : Nat
  start : Bool
  flags : UInt64
  element_size : Nat
  vtable_format_reference : Bool
  features : UInt64
  entries : List VtableEntry
  deriving DecidableEq, Repr

/-- `vtable_features` -/
def vtable_features (vtable : Vtable) : UInt64 :=
  if vtable.element_size < VTABLE_ELEMENT_SIZE_242 || !vtable.vtable_format_reference then 0
  else vtable.features

/-- `bus_vtable_has_names` -/
def bus_vtable_has_names (vtable : Vtable) : Bool :=
  vtable_features vtable &&& _SD_BUS_VTABLE_PARAM_NAMES != 0

/-- `names_flags` -/
structure NamesFlags where
  first_part : Bool
  present : Bool
  single_part : Bool

/-- There is a name left. -/
def names_left (names : List (List UInt8)) : Bool := names.headD [] != []

/-- The loop of `names_are_valid`, where names are present. -/
def names_loop : Nat → List UInt8 → List (List UInt8) → Option (List (List UInt8))
  | 0, _, names => some names
  | fuel + 1, signature, names =>
    if signature = [] then some names
    else
      match signature_element_length signature with
      | none => none
      | some l =>
        if names_left names && member_name_is_valid (names.headD []) then
          names_loop fuel (signature.drop l) names.tail
        else none

/-- `names_are_valid`: the names that are left, and the flags, unless the names
    are invalid. -/
def names_are_valid (signature : List UInt8) (names : List (List UInt8)) (flags : NamesFlags) :
    Option (List (List UInt8) × NamesFlags) :=
  let present := flags.present || (flags.first_part || flags.single_part) && names_left names
  match if present then names_loop signature.length signature names else some names with
  | none => none
  | some rest =>
    if present && names_left rest && !flags.first_part then none
    else some (rest, { flags with first_part := false, present := present })

/-- The names an element starts with: its own, if the vtable has any. -/
def names_of (vtable : Vtable) (v : VtableEntry) (names : List (List UInt8)) :
    List (List UInt8) :=
  if bus_vtable_has_names vtable then v.names else names

/-- The checks of a method, and the names that are left. -/
def method_is_valid (vtable : Vtable) (v : VtableEntry) (names : List (List UInt8)) :
    Option (List (List UInt8)) :=
  match names_are_valid v.signature (names_of vtable v names) ⟨true, false, false⟩ with
  | none => none
  | some (rest, flags) =>
    match names_are_valid v.result rest flags with
    | none => none
    | some (rest, _) =>
      if member_name_is_valid v.member && signature_is_valid v.signature false &&
          signature_is_valid v.result false &&
          (v.handler || v.signature.isEmpty && v.result.isEmpty) &&
          !v.has_flag (SD_BUS_VTABLE_PROPERTY_CONST ||| SD_BUS_VTABLE_PROPERTY_EMITS_CHANGE |||
            SD_BUS_VTABLE_PROPERTY_EMITS_INVALIDATION) then some rest
      else none

/-- The checks of a signal, and the names that are left. -/
def signal_is_valid (vtable : Vtable) (v : VtableEntry) (names : List (List UInt8)) :
    Option (List (List UInt8)) :=
  match names_are_valid v.signature (names_of vtable v names) ⟨false, false, true⟩ with
  | none => none
  | some (rest, _) =>
    if member_name_is_valid v.member && signature_is_valid v.signature false &&
        !v.has_flag SD_BUS_VTABLE_UNPRIVILEGED then some rest
    else none

/-- The checks of a property. -/
def property_is_valid (v : VtableEntry) : Bool :=
  member_name_is_valid v.member && signature_is_single v.signature false &&
    (v.get || bus_type_is_basic (v.signature.headD 0) || v.signature == ascii "as") &&
    !v.has_flag SD_BUS_VTABLE_METHOD_NO_REPLY &&
    (v.has_flag SD_BUS_VTABLE_PROPERTY_CONST).toNat +
      (v.has_flag SD_BUS_VTABLE_PROPERTY_EMITS_CHANGE).toNat +
      (v.has_flag SD_BUS_VTABLE_PROPERTY_EMITS_INVALIDATION).toNat ≤ 1 &&
    !(v.has_flag SD_BUS_VTABLE_PROPERTY_EMITS_CHANGE &&
      v.has_flag SD_BUS_VTABLE_PROPERTY_EXPLICIT) &&
    !(v.has_flag SD_BUS_VTABLE_UNPRIVILEGED && v.type == .property)

/-- What is checked of a writable property before that. -/
def writable_is_valid (v : VtableEntry) : Bool :=
  (v.set || bus_type_is_basic (v.signature.headD 0)) && !v.has_flag SD_BUS_VTABLE_PROPERTY_CONST

/-- The interfaces that are not for vtables. -/
def reserved_interface (interface : List UInt8) : Bool :=
  interface == ascii "org.freedesktop.DBus.Properties" ||
    interface == ascii "org.freedesktop.DBus.Introspectable" ||
    interface == ascii "org.freedesktop.DBus.Peer" ||
    interface == ascii "org.freedesktop.DBus.ObjectManager"

/-! ## Section 3: Nodes and slots -/

abbrev SlotId := Nat

/-- The types of slots that stand for something at a node (`BusSlotType`). -/
inductive BusSlotType where
  | node_callback | node_enumerator | node_object_manager | node_vtable
  deriving DecidableEq, Repr

/-- `BusNode`, but for its path; the four lists of what is registered at it are
    found by the type of the slots. -/
structure BusNode where
  parent : Option Path
  child : List Path
  list : BusSlotType → List SlotId

/-- `sd_bus_slot`, with what `BusNodeVTable` and the others have. `bus` tells
    whether it still belongs to its bus. -/
structure Slot where
  type : BusSlotType
  n_ref : Nat
  floating : Bool
  bus : Bool
  is_fallback : Bool
  node : Option Path
  interface : Option (List UInt8)
  vtable : Option Vtable

/-- The two tables of members: `vtable_methods` and `vtable_properties`. -/
inductive MemberKind where
  | method | property
  deriving DecidableEq, Repr

/-- `BusVTableMember` -/
structure BusVTableMember where
  parent : SlotId
  path : Path
  interface : List UInt8
  member : List UInt8
  vtable : VtableEntry
  deriving DecidableEq, Repr

/-- What `vtable_member_compare_func` compares. -/
def BusVTableMember.key (m : BusVTableMember) : Path × List UInt8 × List UInt8 :=
  (m.path, m.interface, m.member)

/-- The table an element of a vtable goes to. -/
def VtableEntry.kind (v : VtableEntry) : Option MemberKind :=
  match v.type with
  | .method => some .method
  | .property | .writable_property => some .property
  | .signal | .other => none

/-- The part of `sd_bus` that the object tree is in. `nodes_allocated` tells
    whether there is the hashmap of nodes. -/
structure Objects where
  memory : Nat
  nodes_allocated : Bool
  nodes : Path → Option BusNode
  nodes_modified : Bool
  slots : SlotId → Option Slot
  next_slot : SlotId
  members : MemberKind → List BusVTableMember

/-- What `sd_bus_new` sets. -/
def Objects.new : Objects where
  memory := 0
  nodes_allocated := false
  nodes := fun _ => none
  nodes_modified := false
  slots := fun _ => none
  next_slot := 0
  members := fun _ => []

/-- The object tree with another node at this path. -/
def Objects.set_node (b : Objects) (path : Path) (n : Option BusNode) : Objects :=
  { b with nodes := fun q => if q = path then n else b.nodes q }

/-- The object tree with another slot at this address. -/
def Objects.set_slot (b : Objects) (s : SlotId) (x : Option Slot) : Objects :=
  { b with slots := fun t => if t = s then x else b.slots t }

/-- The object tree with another table of members. -/
def Objects.set_members (b : Objects) (k : MemberKind) (ms : List BusVTableMember) : Objects :=
  { b with members := fun l => if l = k then ms else b.members l }

/-- What can be allocated, or not. -/
def alloc : Call Objects PUnit := do
  let b ← get
  if b.memory = 0 then fail .ENOMEM
  else modify fun b => { b with memory := b.memory - 1 }

/-- A node that is looked at must not have been freed. -/
def node (path : Path) : Call Objects BusNode := do
  match (← get).nodes path with
  | some n => pure n
  | none => abort

def update_node (path : Path) (f : BusNode → BusNode) : Call Objects PUnit := do
  let n ← node path
  modify fun b => b.set_node path (some (f n))

/-- The same goes for a slot. -/
def slot (s : SlotId) : Call Objects Slot := do
  match (← get).slots s with
  | some x => pure x
  | none => abort

def update_slot (s : SlotId) (f : Slot → Slot) : Call Objects PUnit := do
  let x ← slot s
  modify fun b => b.set_slot s (some (f x))

/-- Do something with a pointer that is not NULL. -/
def if_some {α : Type} (a : Option α) (f : α → Call Objects PUnit) : Call Objects PUnit :=
  match a with
  | none => pure ⟨⟩
  | some a => f a

/-- The node with another list. -/
def BusNode.set_list (n : BusNode) (type : BusSlotType) (l : List SlotId) : BusNode :=
  { n with list := fun t => if t = type then l else n.list t }

/-- `bus_node_allocate`. It calls itself for the parent, whose path is
    shorter. -/
def bus_node_allocate_at : Nat → Path → Call Objects PUnit
  | 0, _ => abort
  | fuel + 1, path => do
    let b ← get
    if (b.nodes path).isSome then pure ⟨⟩
    else do
      when (!b.nodes_allocated) do
        alloc -- hashmap_ensure_allocated
        modify fun b => { b with nodes_allocated := true }
      alloc -- strdup
      assert (path == root || (parent_path path).isSome)
      if_some (parent_path path) (bus_node_allocate_at fuel)
      alloc -- new0
      alloc -- hashmap_put
      modify fun b => b.set_node path (some ⟨parent_path path, [], fun _ => []⟩)
      if_some (parent_path path) fun parent =>
        update_node parent fun n => { n with child := path :: n.child }

def bus_node_allocate (path : Path) : Call Objects PUnit := bus_node_allocate_at path.length path

/-- Nothing keeps a node. -/
def BusNode.unused (n : BusNode) : Bool :=
  n.child.isEmpty && (n.list .node_callback).isEmpty && (n.list .node_vtable).isEmpty &&
    (n.list .node_enumerator).isEmpty && (n.list .node_object_manager).isEmpty

/-- `bus_node_gc`. It calls itself for the parent. -/
def bus_node_gc_at : Nat → Path → Call Objects PUnit
  | 0, _ => abort
  | fuel + 1, path => do
    let n ← node path
    when n.unused do
      modify fun b => b.set_node path none
      if_some n.parent fun parent => do
        update_node parent fun n => { n with child := n.child.erase path }
        bus_node_gc_at fuel parent

def bus_node_gc (path : Path) : Call Objects PUnit := bus_node_gc_at path.length path

/-- `bus_slot_allocate` -/
def bus_slot_allocate (type : BusSlotType) (floating : Bool) : Call Objects SlotId := do
  alloc
  let s := (← get).next_slot
  modify fun b =>
    { b.set_slot s (some ⟨type, 1, floating, true, false, none, none, none⟩) with
      next_slot := s + 1 }
  pure s

/-! ## Section 4: Taking slots out -/

/-- Remove the members with this key. -/
def set_remove (k : MemberKind) (key : Path × List UInt8 × List UInt8) : Call Objects PUnit :=
  modify fun b => b.set_members k ((b.members k).filter fun m => m.key != key)

/-- Remove a method or property of a vtable from its table. -/
def remove_member (path : Path) (interface : List UInt8) (v : VtableEntry) :
    Call Objects PUnit :=
  match v.kind with
  | none => pure ⟨⟩
  | some k => set_remove k (path, interface, v.member)

/-- What is particular to vtables in `bus_slot_disconnect`. -/
def vtable_disconnect (s : SlotId) (x : Slot) : Call Objects PUnit := do
  if_some x.node fun path => if_some x.interface fun interface => if_some x.vtable fun vtable =>
    vtable.entries.forM (remove_member path interface)
  update_slot s fun x => { x with interface := none }

/-- The `switch` of `bus_slot_disconnect`. -/
def slot_disconnect_type (s : SlotId) : Call Objects PUnit := do
  let x ← slot s
  when (x.type == .node_vtable) (vtable_disconnect s x)
  if_some x.node fun path => do
    update_node path fun n => n.set_list x.type ((n.list x.type).erase s)
    modify fun b => { b with nodes_modified := true }
    bus_node_gc path

/-- `bus_slot_disconnect`, up to where references are dropped. -/
def slot_disconnect (s : SlotId) : Call Objects PUnit := do
  when (← slot s).bus do
    slot_disconnect_type s
    update_slot s fun x => { x with bus := false }

/-- `bus_slot_free` -/
def bus_slot_free (s : SlotId) : Call Objects PUnit := do
  slot_disconnect s
  modify fun b => b.set_slot s none

/-- `sd_bus_slot_unref` -/
def sd_bus_slot_unref (s : SlotId) : Call Objects PUnit := do
  let x ← slot s
  assert (0 < x.n_ref)
  update_slot s fun x => { x with n_ref := x.n_ref - 1 }
  when (x.n_ref == 1) (bus_slot_free s)

/-- `sd_bus_slot_ref` -/
def sd_bus_slot_ref (s : SlotId) : Call Objects PUnit := do
  let x ← slot s
  assert (0 < x.n_ref)
  update_slot s fun x => { x with n_ref := x.n_ref + 1 }

/-- `bus_slot_disconnect`, when the bus goes away: a floating slot loses the
    reference of the bus. -/
def bus_slot_disconnect (s : SlotId) : Call Objects PUnit := do
  let x ← slot s
  when x.bus do
    slot_disconnect s
    when x.floating (sd_bus_slot_unref s)

/-! ## Section 5: Adding to the object tree -/

/-- Allocate a node, and a slot for something at it. -/
def add_node_slot (type : BusSlotType) (floating is_fallback : Bool) (path : Path) :
    Call Objects SlotId := do
  bus_node_allocate path
  cleanup (do
    let s ← bus_slot_allocate type floating
    update_slot s fun x => { x with is_fallback := is_fallback, node := some path }
    update_node path fun n => n.set_list type (s :: n.list type)
    modify fun b => { b with nodes_modified := true }
    pure s)
    (bus_node_gc path)

/-- `bus_add_object` -/
def bus_add_object (floating fallback : Bool) (path : Path) (callback : Bool) :
    Call Objects SlotId := do
  check (object_path_is_valid path) .EINVAL
  check callback .EINVAL
  add_node_slot .node_callback floating fallback path

/-- `sd_bus_add_node_enumerator` -/
def sd_bus_add_node_enumerator (floating : Bool) (path : Path) (callback : Bool) :
    Call Objects SlotId := do
  check (object_path_is_valid path) .EINVAL
  check callback .EINVAL
  add_node_slot .node_enumerator floating false path

/-- `sd_bus_add_object_manager` -/
def sd_bus_add_object_manager (floating : Bool) (path : Path) : Call Objects SlotId := do
  check (object_path_is_valid path) .EINVAL
  add_node_slot .node_object_manager floating false path

/-- The vtable after which a new one is put: the last one of the same
    interface. -/
def find_existing (interface : List UInt8) (vtable : Vtable) (fallback : Bool) :
    List SlotId → Option SlotId → Call Objects (Option SlotId)
  | [], existing => pure existing
  | i :: vtables, existing => do
    let x ← slot i
    check (x.is_fallback == fallback) .EPROTOTYPE
    if x.interface = some interface then do
      check (x.vtable.map (·.address) != some vtable.address) .EEXIST
      find_existing interface vtable fallback vtables (some i)
    else find_existing interface vtable fallback vtables existing

/-- `LIST_INSERT_AFTER` -/
def list_insert_after (after s : SlotId) : List SlotId → List SlotId
  | [] => [s]
  | t :: l => if t = after then t :: s :: l else t :: list_insert_after after s l

/-- The list of vtables with a new one after an existing one, or at its end. -/
def insert_vtable (existing : Option SlotId) (s : SlotId) (l : List SlotId) : List SlotId :=
  match existing.or l.getLast? with
  | none => s :: l
  | some after => list_insert_after after s l

/-- Put a member into its table. -/
def set_put (k : MemberKind) (m : BusVTableMember) : Call Objects PUnit := do
  alloc -- new0
  let b ← get
  check (!(b.members k).any fun x => x.key == m.key) .EEXIST
  alloc -- set_ensure_put
  modify fun b => b.set_members k (m :: b.members k)

/-- Check the elements of a vtable one after the other, and put their members
    into the tables. -/
def add_members (s : SlotId) (path : Path) (interface : List UInt8) (vtable : Vtable) :
    List VtableEntry → List (List UInt8) → Call Objects PUnit
  | [], _ => pure ⟨⟩
  | v :: entries, names => do
    match v.type with
    | .method =>
      match method_is_valid vtable v names with
      | none => fail .EINVAL
      | some rest => do
        set_put .method ⟨s, path, interface, v.member, v⟩
        add_members s path interface vtable entries rest
    | .property | .writable_property => do
      check (v.type != .writable_property || writable_is_valid v) .EINVAL
      check (property_is_valid v) .EINVAL
      set_put .property ⟨s, path, interface, v.member, v⟩
      add_members s path interface vtable entries names
    | .signal =>
      match signal_is_valid vtable v names with
      | none => fail .EINVAL
      | some rest => add_members s path interface vtable entries rest
    | .other => fail .EINVAL

/-- Remove what has been put into a table for an element, if it has been. -/
def undo_member (s : SlotId) (path : Path) (interface : List UInt8) (v : VtableEntry) :
    Call Objects PUnit := do
  let b ← get
  if_some v.kind fun k => when (!v.member.isEmpty) <|
    if_some ((b.members k).find? fun m => m.key == (path, interface, v.member)) fun x =>
      when (x.parent == s) (set_remove k (path, interface, v.member))

/-- `add_object_vtable_internal` -/
def add_object_vtable_internal (floating fallback : Bool) (path : Path) (interface : List UInt8)
    (vtable : Vtable) : Call Objects SlotId := do
  check (object_path_is_valid path) .EINVAL
  check (interface_name_is_valid interface) .EINVAL
  check vtable.start .EINVAL
  check (vtable.element_size == VTABLE_ELEMENT_SIZE_221 ||
    VTABLE_ELEMENT_SIZE_242 ≤ vtable.element_size) .EINVAL
  check (!reserved_interface interface) .EINVAL
  bus_node_allocate path
  cleanup (do
    let n ← node path
    let existing ← find_existing interface vtable fallback (n.list .node_vtable) none
    let s ← bus_slot_allocate .node_vtable floating
    update_slot s fun x => { x with is_fallback := fallback, vtable := some vtable }
    cleanup (do
      alloc -- strdup
      update_slot s fun x => { x with interface := some interface }
      cleanup (add_members s path interface vtable vtable.entries [])
        (vtable.entries.forM (undo_member s path interface)))
      (sd_bus_slot_unref s)
    update_slot s fun x => { x with node := some path }
    update_node path fun n =>
      n.set_list .node_vtable (insert_vtable existing s (n.list .node_vtable))
    modify fun b => { b with nodes_modified := true }
    pure s)
    (bus_node_gc path)

end SdCompat.Objects
