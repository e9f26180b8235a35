import Mathlib.Data.List.Perm.Basic
import SdCompat.SdBus.ObjectsGetAll

/-! # PropertiesChanged (bus-objects.c)

    `sd_bus_emit_properties_changed_strv` sends one signal for an interface of
    an object: the properties that emit a change, with their values, and the
    names of those that emit an invalidation. It goes over the vtables of a node
    twice.

    The callbacks of the program are parameters, as they are for Get.
-/

namespace SdCompat.Objects

open Bus Transition List Outcome
open Option (some bind_some)

/-! ## Section 1: The functions of the source -/

/-- The signal that is sent. -/
structure PropertiesChanged (Val : Type) where
  path : Path
  interface : List UInt8
  changed : List (List UInt8 × Val)
  invalidated : List (List UInt8)
  deriving DecidableEq

/-- The variables of the first pass, and what it has appended. -/
structure FirstPass (Val : Type) where
  found_interface : Bool
  has_invalidating : Bool
  has_changing : Bool
  changed : List (List UInt8 × Val)

section code
variable {Val : Type} (env : Callbacks Val) (b : Objects) (path : Path) (interface : List UInt8)

/-- The first pass over a vtable, for a property that the caller names. -/
def changed_name (p : Place) (c : BusNodeVTable) (a : FirstPass Val) (property : List UInt8) :
    Outcome (FirstPass Val) :=
  if !member_name_is_valid property then .err .EINVAL
  else
    match set_get b .property (p.node, interface, property) with
    | none => .err .ENOENT
    | some v =>
      -- another vtable of the interface has it
      if c.slot ≠ v.parent then .ok a
      else if !(v.vtable.has_flag SD_BUS_VTABLE_PROPERTY_EMITS_CHANGE ||
          v.vtable.has_flag SD_BUS_VTABLE_PROPERTY_EMITS_INVALIDATION) then .err .EDOM
      else if v.vtable.has_flag SD_BUS_VTABLE_HIDDEN then .err .EDOM
      else if v.vtable.has_flag SD_BUS_VTABLE_PROPERTY_EMITS_INVALIDATION then
        .ok { a with has_invalidating := true }
      else
        .ok { a with has_changing := true
                     changed := a.changed ++ [(v.vtable.member, env.get c.slot v.vtable path)] }

/-- The first pass over a vtable, for one of its elements. -/
def changed_entry (c : BusNodeVTable) (a : FirstPass Val) (v : VtableEntry) : FirstPass Val :=
  if v.kind ≠ some .property then a
  else if v.has_flag SD_BUS_VTABLE_HIDDEN then a
  else if v.has_flag SD_BUS_VTABLE_PROPERTY_EMITS_INVALIDATION then
    { a with has_invalidating := true }
  else if !v.has_flag SD_BUS_VTABLE_PROPERTY_EMITS_CHANGE then a
  else
    { a with has_changing := true
             changed := a.changed ++ [(v.member, env.get c.slot v path)] }

/-- The first pass over a vtable. -/
def changed_vtable (p : Place) (names : Option (List (List UInt8))) (a : FirstPass Val)
    (c : BusNodeVTable) : Outcome (FirstPass Val) :=
  if p.require_fallback && !c.is_fallback then .ok a
  else if c.interface ≠ interface then .ok a
  else if !env.find c.slot path then .ok a
  else
    match names with
    | some names =>
      names.foldlM (changed_name env b path interface p c) { a with found_interface := true }
    | none => .ok (c.vtable.entries.foldl (changed_entry env path c) { a with found_interface := true })

/-- The second pass over a vtable, for a property that the caller names. -/
def invalidated_name (p : Place) (c : BusNodeVTable) (l : List (List UInt8))
    (property : List UInt8) : Outcome (List (List UInt8)) :=
  match set_get b .property (p.node, interface, property) with
  | none => .abort
  | some v =>
    -- `assert(c == v->parent)`
    if c.slot ≠ v.parent then .abort
    else if !v.vtable.has_flag SD_BUS_VTABLE_PROPERTY_EMITS_INVALIDATION then .ok l
    else .ok (l ++ [property])

/-- The second pass over a vtable, for one of its elements. -/
def invalidated_entry (l : List (List UInt8)) (v : VtableEntry) : List (List UInt8) :=
  if v.kind ≠ some .property then l
  else if v.has_flag SD_BUS_VTABLE_HIDDEN then l
  else if !v.has_flag SD_BUS_VTABLE_PROPERTY_EMITS_INVALIDATION then l
  else l ++ [v.member]

/-- The second pass over a vtable. -/
def invalidated_vtable (p : Place) (names : Option (List (List UInt8))) (l : List (List UInt8))
    (c : BusNodeVTable) : Outcome (List (List UInt8)) :=
  if p.require_fallback && !c.is_fallback then .ok l
  else if c.interface ≠ interface then .ok l
  else if !env.find c.slot path then .ok l
  else
    match names with
    | some names => names.foldlM (invalidated_name b interface p c) l
    | none => .ok (c.vtable.entries.foldl invalidated_entry l)

/-- The second pass, if there is anything for it. -/
def second_pass (p : Place) (names : Option (List (List UInt8))) (has_invalidating : Bool)
    (list : List BusNodeVTable) : Outcome (List (List UInt8)) :=
  if has_invalidating then list.foldlM (invalidated_vtable env b path interface p names) []
  else .ok []

/-- `emit_properties_changed_on_interface`: whether the interface is found, and
    the signal, if it is sent. -/
def emit_properties_changed_on_interface (p : Place) (names : Option (List (List UInt8))) :
    Outcome (Bool × Option (PropertiesChanged Val)) :=
  match b.nodes p.node with
  | none => .ok (false, none)
  | some n => do
    let a ← (vtables b n).foldlM (changed_vtable env b path interface p names)
      ⟨false, false, false, []⟩
    if !a.has_invalidating && !a.has_changing then .ok (a.found_interface, none)
    else do
      let invalidated ← second_pass env b path interface p names a.has_invalidating (vtables b n)
      .ok (a.found_interface, some ⟨path, interface, a.changed, invalidated⟩)

/-- The node of the path, and after it those of its prefixes, until a signal is
    sent. -/
def emit_properties_changed_on (names : Option (List (List UInt8))) :
    List Place → Bool → Outcome (Option (PropertiesChanged Val))
  | [], found_interface => if found_interface then .ok none else .err .ENOENT
  | p :: ps, found_interface => do
    let r ← emit_properties_changed_on_interface env b path interface p names
    match r.2 with
    | some m => .ok (some m)
    | none => emit_properties_changed_on names ps (found_interface || r.1)

/-- `sd_bus_emit_properties_changed_strv`: the signal that is sent, if there is
    one. -/
def sd_bus_emit_properties_changed_strv (is_open : Bool) (names : Option (List (List UInt8))) :
    Outcome (Option (PropertiesChanged Val)) :=
  if !object_path_is_valid path then .err .EINVAL
  else if !interface_name_is_valid interface then .err .EINVAL
  else if !is_open then .err .ENOTCONN
  else if names = some [] then .ok none
  else emit_properties_changed_on env b path interface names (places path) false

end code

/-! ## Section 2: What is to be sent -/

section spec
variable {Val : Type} (env : Callbacks Val) (b : Objects) (path : Path) (interface : List UInt8)

/-- The vtables of the interface that apply at a place. -/
def used (p : Place) : List BusNodeVTable :=
  (vtables_at env b path p).filter fun c => c.interface == interface

/-- The property of this name in a vtable. -/
def property_of (property : List UInt8) (c : BusNodeVTable) : Option VtableEntry :=
  c.vtable.entries.find? fun e => e.kind == some .property && e.member == property

/-- The property of this name at a place, and its vtable. -/
def declared_at (property : List UInt8) (p : Place) : Option (BusNodeVTable × VtableEntry) :=
  (used env b path interface p).findSome? fun c => (property_of property c).map fun e => (c, e)

/-- The property of this name that the object has: the nearest. -/
def provided (property : List UInt8) : Option (BusNodeVTable × VtableEntry) :=
  (places path).findSome? (declared_at env b path interface property)

/-- A property emits a change or an invalidation. -/
def Marked (e : VtableEntry) : Bool :=
  e.has_flag SD_BUS_VTABLE_PROPERTY_EMITS_CHANGE ||
    e.has_flag SD_BUS_VTABLE_PROPERTY_EMITS_INVALIDATION

/-- A property that is sent when the caller names none. -/
def Announced (e : VtableEntry) : Bool :=
  e.kind == some .property && !e.has_flag SD_BUS_VTABLE_HIDDEN && Marked e

/-- These properties of a vtable. -/
def announced (c : BusNodeVTable) : List (BusNodeVTable × VtableEntry) :=
  (c.vtable.entries.filter Announced).map fun e => (c, e)

/-- The properties of the object that the signal is about. -/
def concerned (names : Option (List (List UInt8))) : List (BusNodeVTable × VtableEntry) :=
  match names with
  | some names => names.filterMap (provided env b path interface)
  | none =>
    ((places path).flatMap fun p => (used env b path interface p).flatMap announced).filter
      fun x => provided env b path interface x.2.member = some x

/-- Their part in the signal. -/
def changed_part (l : List (BusNodeVTable × VtableEntry)) : List (List UInt8 × Val) :=
  (l.filter fun x => !x.2.has_flag SD_BUS_VTABLE_PROPERTY_EMITS_INVALIDATION).map
    fun x => (x.2.member, env.get x.1.slot x.2 path)

def invalidated_part (l : List (BusNodeVTable × VtableEntry)) : List (List UInt8) :=
  (l.filter fun x => x.2.has_flag SD_BUS_VTABLE_PROPERTY_EMITS_INVALIDATION).map (·.2.member)

/-- One signal is sent, with the properties that it is about, each as often as it
    is named. -/
def Announces (names : Option (List (List UInt8))) : Prop :=
  ∃ changed invalidated,
    sd_bus_emit_properties_changed_strv env b path interface true names =
      .ok (some ⟨path, interface, changed, invalidated⟩) ∧
    changed.Perm (changed_part env path (concerned env b path interface names)) ∧
    invalidated.Perm (invalidated_part (concerned env b path interface names))

/-- The caller names properties that the object has, and that are marked. -/
def Nameable (names : Option (List (List UInt8))) : Prop :=
  ∀ l, names = some l → ∀ property ∈ l, member_name_is_valid property = true ∧
    ∃ x, provided env b path interface property = some x ∧ Marked x.2 = true

/-- Nothing is sent at a place, and the names are no error there. -/
def Passed (names : Option (List (List UInt8))) (p : Place) : Prop :=
  match names with
  | some names => used env b path interface p = [] ∨
      ∀ property ∈ names, ∃ v, set_get b .property (p.node, interface, property) = some v ∧
        ∀ c ∈ used env b path interface p, c.slot ≠ v.parent
  | none => ∀ c ∈ used env b path interface p, announced c = []

/-- All that the signal is about is at one place. -/
structure AnnouncedAt (names : Option (List (List UInt8))) (near : List Place) (q : Place)
    (far : List Place) : Prop where
  places : places path = near ++ q :: far
  passed : ∀ p ∈ near, Passed env b path interface names p
  something : concerned env b path interface names ≠ []
  here : ∀ x ∈ concerned env b path interface names, x.1 ∈ used env b path interface q
  nearest : names = none → ∀ c ∈ used env b path interface q, ∀ x ∈ announced c,
    provided env b path interface x.2.member = some x
  visible : names ≠ none → ∀ x ∈ concerned env b path interface names,
    x.2.has_flag SD_BUS_VTABLE_HIDDEN = false
  alone : names ≠ none → ∀ x ∈ concerned env b path interface names,
    x.2.has_flag SD_BUS_VTABLE_PROPERTY_EMITS_INVALIDATION = true →
      ∀ c ∈ used env b path interface q, c = x.1

end spec

/-! ## Section 3: The two passes at a place -/

/-- A loop that goes on in some rounds. -/
theorem foldlM_filter {α β : Type} {f : β → α → Outcome β} {p : α → Bool}
    (h : ∀ a x, p x = false → f a x = .ok a) (l : List α) (a : β) :
    l.foldlM f a = (l.filter p).foldlM f a := by
  induction l generalizing a with
  | nil => rfl
  | cons x l ih =>
    cases hx : p x with
    | true =>
      rw [filter_cons_of_pos hx, foldlM_cons]
      congr 1
      funext a'
      exact ih a'
    | false =>
      rw [filter_cons_of_neg (by simp [hx]), foldlM_cons, h a x hx]
      exact ih a

section passes
variable {Val : Type} {env : Callbacks Val} {b : Objects} {path : Path} {interface : List UInt8}
  {p : Place} {c : BusNodeVTable} {n : BusNode} {names : Option (List (List UInt8))}
  {a : FirstPass Val} {l : List (List UInt8)} {v : BusVTableMember} {property : List UInt8}

variable (b interface p c) in
/-- The property of this name, if this vtable has it. -/
def named (property : List UInt8) : Option (BusNodeVTable × VtableEntry) :=
  (set_get b .property (p.node, interface, property)).bind fun v =>
    if c.slot = v.parent then some (c, v.vtable) else none

variable (b interface p c) in
/-- The first pass over the vtable goes on after this name. -/
def Accepted (property : List UInt8) : Prop :=
  ∃ v, set_get b .property (p.node, interface, property) = some v ∧
    (c.slot = v.parent → Marked v.vtable = true ∧
      v.vtable.has_flag SD_BUS_VTABLE_HIDDEN = false)

variable (b interface p) in
/-- What is sent of a vtable. -/
def emitted (names : Option (List (List UInt8))) (c : BusNodeVTable) :
    List (BusNodeVTable × VtableEntry) :=
  match names with
  | some names => names.filterMap (named b interface p c)
  | none => announced c

variable (env path) in
/-- The first pass, after more properties. -/
def FirstPass.add (a : FirstPass Val) (l : List (BusNodeVTable × VtableEntry)) : FirstPass Val where
  found_interface := a.found_interface
  has_invalidating := a.has_invalidating ||
    l.any fun x => x.2.has_flag SD_BUS_VTABLE_PROPERTY_EMITS_INVALIDATION
  has_changing := a.has_changing ||
    l.any fun x => !x.2.has_flag SD_BUS_VTABLE_PROPERTY_EMITS_INVALIDATION
  changed := a.changed ++ changed_part env path l

theorem changed_part_append (l l' : List (BusNodeVTable × VtableEntry)) :
    changed_part env path (l ++ l') = changed_part env path l ++ changed_part env path l' := by
  unfold changed_part
  rw [filter_append, map_append]

theorem invalidated_part_append (l l' : List (BusNodeVTable × VtableEntry)) :
    invalidated_part (l ++ l') = invalidated_part l ++ invalidated_part l' := by
  unfold invalidated_part
  rw [filter_append, map_append]

theorem FirstPass.add_nil : a.add env path [] = a := by
  simp [FirstPass.add, changed_part]

theorem FirstPass.add_append (l l' : List (BusNodeVTable × VtableEntry)) :
    a.add env path (l ++ l') = (a.add env path l).add env path l' := by
  unfold FirstPass.add
  rw [any_append, any_append, changed_part_append]
  simp only [Bool.or_assoc, append_assoc]

/-- A vtable is used at a node. -/
theorem used_eq (hn : b.nodes p.node = some n) : used env b path interface p =
    (vtables b n).filter fun c => !(p.require_fallback && !c.is_fallback) &&
      (c.interface == interface && env.find c.slot path) := by
  unfold used
  rw [vtables_at_eq hn, filter_filter]
  congr 1
  funext c
  unfold applies
  cases p.require_fallback && !c.is_fallback <;> cases env.find c.slot path <;> simp

theorem mem_used : c ∈ used env b path interface p ↔
    c ∈ vtables_at env b path p ∧ c.interface = interface := by
  unfold used
  rw [mem_filter, beq_iff_eq]

/-- The first pass over a vtable, for one name that is in the table. -/
theorem changed_name_eq (hvalid : member_name_is_valid property = true)
    (hget : set_get b .property (p.node, interface, property) = some v) :
    changed_name env b path interface p c a property = if c.slot ≠ v.parent then .ok a
      else if Marked v.vtable = true ∧ v.vtable.has_flag SD_BUS_VTABLE_HIDDEN = false then
        .ok (a.add env path [(c, v.vtable)]) else .err .EDOM := by
  have hadd : a.add env path [(c, v.vtable)] =
      if v.vtable.has_flag SD_BUS_VTABLE_PROPERTY_EMITS_INVALIDATION then
        { a with has_invalidating := true }
      else
        { a with has_changing := true
                 changed := a.changed ++ [(v.vtable.member, env.get c.slot v.vtable path)] } := by
    unfold FirstPass.add changed_part
    cases hinval : v.vtable.has_flag SD_BUS_VTABLE_PROPERTY_EMITS_INVALIDATION with
    | true => simp [hinval]
    | false => simp [hinval]
  unfold changed_name
  rw [hvalid, hget, hadd]
  dsimp only
  unfold Marked
  generalize v.vtable.has_flag SD_BUS_VTABLE_PROPERTY_EMITS_CHANGE = change
  generalize v.vtable.has_flag SD_BUS_VTABLE_PROPERTY_EMITS_INVALIDATION = invalidation
  generalize v.vtable.has_flag SD_BUS_VTABLE_HIDDEN = hidden
  cases change <;> cases invalidation <;> cases hidden <;> simp

variable {a' : FirstPass Val}

theorem changed_name_ok (hvalid : member_name_is_valid property = true) :
    changed_name env b path interface p c a property = .ok a' ↔ Accepted b interface p c property ∧
        a' = a.add env path (named b interface p c property).toList := by
  cases hget : set_get b .property (p.node, interface, property) with
  | none =>
    unfold changed_name Accepted
    simp [hvalid, hget]
  | some v =>
    rw [changed_name_eq hvalid hget]
    unfold Accepted named
    rw [hget, bind_some]
    by_cases hparent : c.slot = v.parent
    · rw [if_neg (not_not.mpr hparent)]
      split
      · next hfine =>
        rw [ok.injEq]
        exact ⟨fun h => ⟨⟨v, rfl, fun _ => hfine⟩, h.symm⟩, fun h => h.2.symm⟩
      · next hwrong =>
        constructor
        · intro h
          cases h
        · rintro ⟨⟨v', hv', hfine⟩, -⟩
          cases hv'
          exact absurd (hfine hparent) hwrong
    · rw [if_pos hparent, if_neg hparent, ok.injEq, Option.toList_none, FirstPass.add_nil]
      exact ⟨fun h => ⟨⟨v, rfl, fun h => absurd h hparent⟩, h.symm⟩, fun h => h.2.symm⟩

/-- The first pass over a vtable, for all names. -/
theorem changed_names_ok (hvalid : ∀ x ∈ l, member_name_is_valid x = true) :
    l.foldlM (changed_name env b path interface p c) a = .ok a' ↔
      (∀ x ∈ l, Accepted b interface p c x) ∧
        a' = a.add env path (l.filterMap (named b interface p c)) := by
  induction l generalizing a with
  | nil => simp [FirstPass.add_nil, eq_comm]
  | cons x l ih =>
    obtain ⟨hx, hl⟩ := forall_mem_cons.mp hvalid
    have hsplit : (x :: l).filterMap (named b interface p c) =
        (named b interface p c x).toList ++ l.filterMap (named b interface p c) := by
      rw [filterMap_cons]
      cases named b interface p c x with
      | none => rfl
      | some y => rfl
    rw [foldlM_cons, bind_eq_ok, hsplit, FirstPass.add_append]
    constructor
    · rintro ⟨a1, h1, hrest⟩
      obtain ⟨haccepted, rfl⟩ := (changed_name_ok hx).mp h1
      obtain ⟨hall, rfl⟩ := (ih hl).mp hrest
      exact ⟨forall_mem_cons.mpr ⟨haccepted, hall⟩, rfl⟩
    · rintro ⟨hall, rfl⟩
      obtain ⟨haccepted, hall⟩ := forall_mem_cons.mp hall
      exact ⟨_, (changed_name_ok hx).mpr ⟨haccepted, rfl⟩, (ih hl).mpr ⟨hall, rfl⟩⟩

/-- The first pass over a vtable, for all of its elements. -/
theorem changed_entries (entries : List VtableEntry) : entries.foldl (changed_entry env path c) a =
      a.add env path ((entries.filter Announced).map fun e => (c, e)) := by
  induction entries generalizing a with
  | nil => exact FirstPass.add_nil.symm
  | cons v entries ih =>
    have hone : changed_entry env path c a v =
        a.add env path (([v].filter Announced).map fun e => (c, e)) := by
      unfold changed_entry
      by_cases hkind : v.kind = some .property
      · cases hhidden : v.has_flag SD_BUS_VTABLE_HIDDEN with
        | true => simp [hhidden, Announced, FirstPass.add_nil]
        | false =>
          cases hinval : v.has_flag SD_BUS_VTABLE_PROPERTY_EMITS_INVALIDATION with
          | true => simp [hkind, hhidden, hinval, Announced, Marked, FirstPass.add, changed_part]
          | false =>
            cases hchange : v.has_flag SD_BUS_VTABLE_PROPERTY_EMITS_CHANGE with
            | true =>
              simp [hkind, hhidden, hinval, hchange, Announced, Marked, FirstPass.add, changed_part]
            | false =>
              simp [hinval, hchange, Announced, Marked, FirstPass.add_nil]
      · simp [hkind, Announced, FirstPass.add_nil]
    rw [foldl_cons, ih, hone, ← FirstPass.add_append, ← map_append, ← filter_append]
    rfl

variable (b interface p) in
/-- The first pass goes on after all names, for this vtable. -/
def AllAccepted (names : Option (List (List UInt8))) (c : BusNodeVTable) : Prop :=
  ∀ l, names = some l → ∀ x ∈ l, Accepted b interface p c x

variable (b interface p) in
/-- The vtable has all names. -/
def AllOwned (names : Option (List (List UInt8))) (c : BusNodeVTable) : Prop :=
  ∀ l, names = some l → ∀ x ∈ l,
    ∃ v, set_get b .property (p.node, interface, x) = some v ∧ c.slot = v.parent

/-- All names are valid. -/
def AllValid (names : Option (List (List UInt8))) : Prop :=
  ∀ l, names = some l → ∀ x ∈ l, member_name_is_valid x = true

variable (env path interface p) in
/-- The conditions of both passes. -/
def in_use (c : BusNodeVTable) : Bool :=
  !(p.require_fallback && !c.is_fallback) && (c.interface == interface && env.find c.slot path)

/-- The conditions, as both passes have them. -/
theorem in_use_guard {α : Type} (x y : α) :
    (if p.require_fallback && !c.is_fallback then x else if c.interface ≠ interface then x
      else if !env.find c.slot path then x else y) =
        if in_use env path interface p c then y else x := by
  unfold in_use
  cases p.require_fallback && !c.is_fallback with
  | true => rfl
  | false =>
    by_cases hi : c.interface = interface
    · cases env.find c.slot path with
      | true => simp
      | false => simp
    · simp [hi]

theorem changed_vtable_skip (h : in_use env path interface p c = false) :
    changed_vtable env b path interface p names a c = .ok a := by
  unfold changed_vtable
  rw [in_use_guard, h, if_neg Bool.false_ne_true]

theorem invalidated_vtable_skip (h : in_use env path interface p c = false) :
    invalidated_vtable env b path interface p names l c = .ok l := by
  unfold invalidated_vtable
  rw [in_use_guard, h, if_neg Bool.false_ne_true]

/-- The first pass over a vtable that is used. -/
theorem changed_vtable_ok (hvalid : AllValid names) (h : in_use env path interface p c = true) :
    changed_vtable env b path interface p names a c = .ok a' ↔
      AllAccepted b interface p names c ∧
        a' = FirstPass.add env path { a with found_interface := true }
          (emitted b interface p names c) := by
  unfold changed_vtable
  rw [in_use_guard, if_pos h]
  cases names with
  | none =>
    rw [changed_entries, ok.injEq]
    constructor
    · intro heq
      exact ⟨nofun, heq.symm⟩
    · rintro ⟨-, rfl⟩
      rfl
  | some names =>
    rw [changed_names_ok (hvalid names rfl)]
    constructor
    · rintro ⟨hall, rfl⟩
      refine ⟨?_, rfl⟩
      rintro l hl
      cases hl
      exact hall
    · rintro ⟨hall, rfl⟩
      exact ⟨hall names rfl, rfl⟩

variable {us : List BusNodeVTable}

/-- The first pass over vtables that are used. -/
theorem first_pass_ok (hvalid : AllValid names) (h : ∀ c ∈ us, in_use env path interface p c = true) :
    us.foldlM (changed_vtable env b path interface p names) a = .ok a' ↔
      (∀ c ∈ us, AllAccepted b interface p names c) ∧
        a' = FirstPass.add env path { a with found_interface := a.found_interface || !us.isEmpty }
          (us.flatMap (emitted b interface p names)) := by
  induction us generalizing a with
  | nil => simp [FirstPass.add_nil, eq_comm]
  | cons c us ih =>
    obtain ⟨hc, hus⟩ := forall_mem_cons.mp h
    rw [foldlM_cons, bind_eq_ok, flatMap_cons, FirstPass.add_append]
    constructor
    · rintro ⟨a1, h1, hrest⟩
      obtain ⟨haccepted, rfl⟩ := (changed_vtable_ok hvalid hc).mp h1
      obtain ⟨hall, rfl⟩ := (ih hus).mp hrest
      refine ⟨forall_mem_cons.mpr ⟨haccepted, hall⟩, ?_⟩
      simp [FirstPass.add]
    · rintro ⟨hall, rfl⟩
      obtain ⟨haccepted, hall⟩ := forall_mem_cons.mp hall
      refine ⟨_, (changed_vtable_ok hvalid hc).mpr ⟨haccepted, rfl⟩, (ih hus).mpr ⟨hall, ?_⟩⟩
      simp [FirstPass.add]

/-- What is looked up in the table of a node is an element of a vtable, under its
    own name. -/
theorem set_get_some (hb : Served b) (h : set_get b .property (p.node, interface, property) = some v) :
    v ∈ b.members .property ∧ v.path = p.node ∧ v.interface = interface ∧
      v.vtable.member = property := by
  have hmem := mem_of_find?_eq_some h
  have hkey : v.key = (p.node, interface, property) := by simpa using find?_some h
  unfold BusVTableMember.key at hkey
  simp only [Prod.mk.injEq] at hkey
  obtain ⟨s, x, hx, q, i, w, e, -, -, -, -, -, rfl⟩ := (hb.tables.members _ _).mp hmem
  exact ⟨hmem, hkey.1, hkey.2.1, hkey.2.2⟩

variable {l' : List (List UInt8)}

/-- The second pass over a vtable, for all names. -/
theorem invalidated_names_ok {names : List (List UInt8)} (hb : Served b) :
    names.foldlM (invalidated_name b interface p c) l = .ok l' ↔
      (∀ x ∈ names, ∃ v, set_get b .property (p.node, interface, x) = some v ∧ c.slot = v.parent) ∧
        l' = l ++ invalidated_part (names.filterMap (named b interface p c)) := by
  induction names generalizing l with
  | nil => simp [invalidated_part, eq_comm]
  | cons x names ih =>
    rw [foldlM_cons, bind_eq_ok]
    cases hget : set_get b .property (p.node, interface, x) with
    | none => simp [invalidated_name, hget]
    | some v =>
      by_cases hparent : c.slot = v.parent
      · have hname := (set_get_some hb hget).2.2.2
        have hone : named b interface p c x = some (c, v.vtable) := by
          unfold named
          rw [hget, bind_some, if_pos hparent]
        have hround : invalidated_name b interface p c l x =
            .ok (l ++ invalidated_part [(c, v.vtable)]) := by
          unfold invalidated_name invalidated_part
          rw [hget]
          cases hinval : v.vtable.has_flag SD_BUS_VTABLE_PROPERTY_EMITS_INVALIDATION with
          | true => simp [hparent, hinval, hname]
          | false => simp [hparent, hinval]
        have hsplit : (x :: names).filterMap (named b interface p c) =
            [(c, v.vtable)] ++ names.filterMap (named b interface p c) := by
          rw [filterMap_cons, hone]
          rfl
        rw [hsplit, invalidated_part_append, ← append_assoc, forall_mem_cons]
        constructor
        · rintro ⟨l1, h1, hrest⟩
          rw [hround] at h1
          cases h1
          obtain ⟨hall, rfl⟩ := ih.mp hrest
          exact ⟨⟨⟨v, hget, hparent⟩, hall⟩, rfl⟩
        · rintro ⟨⟨-, hall⟩, rfl⟩
          exact ⟨_, hround, ih.mpr ⟨hall, rfl⟩⟩
      · constructor
        · rintro ⟨l1, h1, -⟩
          simp [invalidated_name, hget, hparent] at h1
        · rintro ⟨hall, -⟩
          obtain ⟨v', hv', hparent'⟩ := hall x mem_cons_self
          rw [hget] at hv'
          cases hv'
          exact absurd hparent' hparent

/-- The second pass over a vtable, for all of its elements. -/
theorem invalidated_entries (entries : List VtableEntry) : entries.foldl invalidated_entry l =
      l ++ invalidated_part ((entries.filter Announced).map fun e => (c, e)) := by
  induction entries generalizing l with
  | nil => simp [invalidated_part]
  | cons v entries ih =>
    have hone : invalidated_entry l v =
        l ++ invalidated_part (([v].filter Announced).map fun e => (c, e)) := by
      unfold invalidated_entry
      by_cases hkind : v.kind = some .property
      · cases hhidden : v.has_flag SD_BUS_VTABLE_HIDDEN with
        | true => simp [hhidden, Announced, invalidated_part]
        | false =>
          cases hinval : v.has_flag SD_BUS_VTABLE_PROPERTY_EMITS_INVALIDATION with
          | true => simp [hkind, hhidden, hinval, Announced, Marked, invalidated_part]
          | false =>
            cases hchange : v.has_flag SD_BUS_VTABLE_PROPERTY_EMITS_CHANGE with
            | true =>
              simp [hinval, hchange, Announced, Marked, invalidated_part]
            | false =>
              simp [hinval, hchange, Announced, Marked, invalidated_part]
      · simp [hkind, Announced, invalidated_part]
    rw [foldl_cons, ih, hone, append_assoc, ← invalidated_part_append, ← map_append,
      ← filter_append]
    rfl

/-- The second pass over a vtable that is used. -/
theorem invalidated_vtable_ok (hb : Served b) (h : in_use env path interface p c = true) :
    invalidated_vtable env b path interface p names l c = .ok l' ↔ AllOwned b interface p names c ∧
        l' = l ++ invalidated_part (emitted b interface p names c) := by
  unfold invalidated_vtable
  rw [in_use_guard, if_pos h]
  cases names with
  | none =>
    rw [invalidated_entries, ok.injEq]
    constructor
    · intro heq
      exact ⟨nofun, heq.symm⟩
    · rintro ⟨-, rfl⟩
      rfl
  | some names =>
    rw [invalidated_names_ok hb]
    constructor
    · rintro ⟨hall, rfl⟩
      refine ⟨?_, rfl⟩
      rintro l hl
      cases hl
      exact hall
    · rintro ⟨hall, rfl⟩
      exact ⟨hall names rfl, rfl⟩

theorem second_pass_ok (hb : Served b) (h : ∀ c ∈ us, in_use env path interface p c = true) :
    us.foldlM (invalidated_vtable env b path interface p names) l = .ok l' ↔
      (∀ c ∈ us, AllOwned b interface p names c) ∧
        l' = l ++ invalidated_part (us.flatMap (emitted b interface p names)) := by
  induction us generalizing l with
  | nil => simp [invalidated_part, eq_comm]
  | cons c us ih =>
    obtain ⟨hc, hus⟩ := forall_mem_cons.mp h
    rw [foldlM_cons, bind_eq_ok, flatMap_cons, invalidated_part_append,
      ← append_assoc]
    constructor
    · rintro ⟨l1, h1, hrest⟩
      obtain ⟨howned, rfl⟩ := (invalidated_vtable_ok hb hc).mp h1
      obtain ⟨hall, rfl⟩ := (ih hus).mp hrest
      exact ⟨forall_mem_cons.mpr ⟨howned, hall⟩, rfl⟩
    · rintro ⟨hall, rfl⟩
      obtain ⟨howned, hall⟩ := forall_mem_cons.mp hall
      exact ⟨_, (invalidated_vtable_ok hb hc).mpr ⟨howned, rfl⟩, (ih hus).mpr ⟨hall, rfl⟩⟩

variable (env b path interface) in
/-- What is sent of a place. -/
def emitted_at (names : Option (List (List UInt8))) (p : Place) :
    List (BusNodeVTable × VtableEntry) :=
  (used env b path interface p).flatMap (emitted b interface p names)

variable (env b path interface p) in
/-- What a place returns when there is no error. -/
structure Returns (names : Option (List (List UInt8)))
    (r : Bool × Option (PropertiesChanged Val)) : Prop where
  accepted : ∀ c ∈ used env b path interface p, AllAccepted b interface p names c
  found : r.1 = !(used env b path interface p).isEmpty
  sent : r.2 = if emitted_at env b path interface names p = [] then none
    else some ⟨path, interface, changed_part env path (emitted_at env b path interface names p),
      invalidated_part (emitted_at env b path interface names p)⟩
  owned : (emitted_at env b path interface names p).any
      (fun x => x.2.has_flag SD_BUS_VTABLE_PROPERTY_EMITS_INVALIDATION) = true →
    ∀ c ∈ used env b path interface p, AllOwned b interface p names c

/-- Without a mark of invalidation the second list is empty. -/
theorem invalidated_part_eq_nil {l : List (BusNodeVTable × VtableEntry)}
    (h : l.any (fun x => x.2.has_flag SD_BUS_VTABLE_PROPERTY_EMITS_INVALIDATION) = false) :
    invalidated_part l = [] := by
  unfold invalidated_part
  rw [any_eq_false] at h
  rw [filter_eq_nil_iff.mpr h]
  rfl

/-- Nothing is changing or invalidating when there is nothing to send. -/
theorem nothing_iff {l : List (BusNodeVTable × VtableEntry)} :
    (l.any (fun x => x.2.has_flag SD_BUS_VTABLE_PROPERTY_EMITS_INVALIDATION) ||
      l.any (fun x => !x.2.has_flag SD_BUS_VTABLE_PROPERTY_EMITS_INVALIDATION)) = false ↔ l = [] := by
  cases l with
  | nil => simp
  | cons x l =>
    cases hx : x.2.has_flag SD_BUS_VTABLE_PROPERTY_EMITS_INVALIDATION with
    | true => simp [hx]
    | false => simp [hx]

variable {r : Bool × Option (PropertiesChanged Val)}

/-- What comes after the first pass. -/
theorem after_first_pass_ok {E : List (BusNodeVTable × VtableEntry)} {f : Bool}
    {list : List BusNodeVTable}
    (hsecond : ∀ l, list.foldlM (invalidated_vtable env b path interface p names) [] = .ok l ↔ (∀ c ∈ us, AllOwned b interface p names c) ∧ l = invalidated_part E)
    (ha : a = FirstPass.add env path ⟨f, false, false, []⟩ E) :
    (if !a.has_invalidating && !a.has_changing then .ok (a.found_interface, none)
    else do
      let invalidated ← second_pass env b path interface p names a.has_invalidating list
      .ok (a.found_interface, some ⟨path, interface, a.changed, invalidated⟩) :
        Outcome (Bool × Option (PropertiesChanged Val))) = .ok r ↔
      r.1 = f ∧
        (r.2 = if E = [] then none
          else some ⟨path, interface, changed_part env path E, invalidated_part E⟩) ∧
        (E.any (fun x => x.2.has_flag SD_BUS_VTABLE_PROPERTY_EMITS_INVALIDATION) = true →
          ∀ c ∈ us, AllOwned b interface p names c) := by
  subst ha
  have hchanged : (FirstPass.add env path ⟨f, false, false, []⟩ E).changed =
      changed_part env path E := nil_append _
  have hinval : (FirstPass.add env path ⟨f, false, false, []⟩ E).has_invalidating =
      E.any fun x => x.2.has_flag SD_BUS_VTABLE_PROPERTY_EMITS_INVALIDATION := Bool.false_or _
  have hchanging : (FirstPass.add env path ⟨f, false, false, []⟩ E).has_changing =
      E.any fun x => !x.2.has_flag SD_BUS_VTABLE_PROPERTY_EMITS_INVALIDATION := Bool.false_or _
  have hfound : (FirstPass.add env path ⟨f, false, false, []⟩ E).found_interface = f := rfl
  rw [hchanged, hinval, hchanging, hfound, ← Bool.not_or]
  by_cases hnil : E = []
  · rw [nothing_iff.mpr hnil, Bool.not_false, if_pos rfl, if_pos hnil, ok.injEq]
    constructor
    · rintro rfl
      exact ⟨rfl, rfl, by simp [hnil]⟩
    · rintro ⟨hf, hr, -⟩
      exact Prod.ext hf.symm hr.symm
  · rw [Bool.eq_true_of_not_eq_false (mt nothing_iff.mp hnil), if_neg (by simp), if_neg hnil,
      bind_eq_ok]
    cases hany : E.any fun x => x.2.has_flag SD_BUS_VTABLE_PROPERTY_EMITS_INVALIDATION with
    | true =>
      constructor
      · rintro ⟨l, hl, hr⟩
        obtain ⟨hall, rfl⟩ := (hsecond l).mp hl
        cases hr
        exact ⟨rfl, rfl, fun _ => hall⟩
      · rintro ⟨hf, hr, hall⟩
        refine ⟨_, (hsecond _).mpr ⟨hall rfl, rfl⟩, ?_⟩
        rw [← hf, ← hr]
    | false =>
      rw [invalidated_part_eq_nil hany]
      constructor
      · rintro ⟨l, hl, hr⟩
        cases hl
        cases hr
        exact ⟨rfl, rfl, by simp⟩
      · rintro ⟨hf, hr, -⟩
        refine ⟨_, rfl, ?_⟩
        rw [← hf, ← hr]

/-- A place, in one. -/
theorem on_interface_ok (hb : Served b) (hvalid : AllValid names) :
    emit_properties_changed_on_interface env b path interface p names = .ok r ↔
      Returns env b path interface p names r := by
  unfold emit_properties_changed_on_interface
  cases hn : b.nodes p.node with
  | none =>
    have hused : used env b path interface p = [] := by
      unfold used vtables_at
      rw [hn]
      rfl
    have hnone : emitted_at env b path interface names p = [] := by
      unfold emitted_at
      rw [hused]
      rfl
    constructor
    · intro h
      cases h
      exact ⟨by simp [hused], by simp [hused], by simp [hnone], by simp [hused]⟩
    · rintro ⟨-, hfound, hsent, -⟩
      rw [hused] at hfound
      rw [if_pos hnone] at hsent
      exact congrArg ok (Prod.ext hfound.symm hsent.symm)
  | some n =>
    have huse : ∀ c ∈ used env b path interface p, in_use env path interface p c = true := by
      intro c hc
      rw [used_eq hn] at hc
      exact (mem_filter.mp hc).2
    have hskip : ∀ (a : FirstPass Val) c, in_use env path interface p c = false →
        changed_vtable env b path interface p names a c = .ok a :=
      fun _ _ h => changed_vtable_skip h
    have hskip' : ∀ l c, in_use env path interface p c = false →
        invalidated_vtable env b path interface p names l c = .ok l :=
      fun _ _ h => invalidated_vtable_skip h
    have hfilter : (vtables b n).filter (in_use env path interface p) =
        used env b path interface p := (used_eq hn).symm
    have hfirst : ∀ a, (vtables b n).foldlM (changed_vtable env b path interface p names)
        ⟨false, false, false, []⟩ = .ok a ↔
          (∀ c ∈ used env b path interface p, AllAccepted b interface p names c) ∧
            a = FirstPass.add env path
              ⟨!(used env b path interface p).isEmpty, false, false, []⟩
              (emitted_at env b path interface names p) := by
      intro a
      rw [foldlM_filter hskip, hfilter]
      exact first_pass_ok hvalid huse
    have hsecond : ∀ l, (vtables b n).foldlM (invalidated_vtable env b path interface p names) [] =
        .ok l ↔ (∀ c ∈ used env b path interface p, AllOwned b interface p names c) ∧
          l = invalidated_part (emitted_at env b path interface names p) := by
      intro l
      rw [foldlM_filter hskip', hfilter]
      exact second_pass_ok hb huse
    rw [bind_eq_ok]
    constructor
    · rintro ⟨a, ha, hrest⟩
      obtain ⟨haccepted, ha⟩ := (hfirst a).mp ha
      obtain ⟨hfound, hsent, howned⟩ := (after_first_pass_ok hsecond ha).mp hrest
      exact ⟨haccepted, hfound, hsent, howned⟩
    · rintro ⟨haccepted, hfound, hsent, howned⟩
      exact ⟨_, (hfirst _).mpr ⟨haccepted, rfl⟩,
        (after_first_pass_ok hsecond rfl).mpr ⟨hfound, hsent, howned⟩⟩

end passes

/-! ## Section 4: The properties of the object -/

section provided
variable {Val : Type} {env : Callbacks Val} {b : Objects} {path : Path} {interface : List UInt8}
  {p q : Place} {c c' : BusNodeVTable} {e : VtableEntry} {x : BusNodeVTable × VtableEntry}
  {l : List (List UInt8)} {property : List UInt8} {near far : List Place}

theorem property_of_some (h : property_of property c = some e) :
    e ∈ c.vtable.entries ∧ e.kind = some .property ∧ e.member = property := by
  have hcond := find?_some h
  rw [Bool.and_eq_true, beq_iff_eq, beq_iff_eq] at hcond
  exact ⟨mem_of_find?_eq_some h, hcond.1, hcond.2⟩

/-- What is used at a place is a vtable of its node. -/
theorem used_at_node (hc : c ∈ used env b path interface p) (hc' : c' ∈ used env b path interface p) :
    ∃ n, b.nodes p.node = some n ∧ c ∈ vtables b n ∧ c' ∈ vtables b n := by
  obtain ⟨n, hn, hmem, -⟩ := mem_vtables_at.mp (mem_used.mp hc).1
  obtain ⟨n', hn', hmem', -⟩ := mem_vtables_at.mp (mem_used.mp hc').1
  obtain rfl := some.inj (hn.symm.trans hn')
  exact ⟨n, hn, hmem, hmem'⟩

/-- Two properties of one name at one node are the same. -/
theorem used_unique (hb : Served b) (hc : c ∈ used env b path interface p)
    (hc' : c' ∈ used env b path interface p) {e' : VtableEntry} (he : e ∈ c.vtable.entries)
    (hk : e.kind = some .property) (he' : e' ∈ c'.vtable.entries) (hk' : e'.kind = some .property)
    (hname : e'.member = e.member) : c' = c ∧ e' = e := by
  obtain ⟨n, hn, hmem, hmem'⟩ := used_at_node hc hc'
  have hi := (mem_used.mp hc').2.trans (mem_used.mp hc).2.symm
  exact property_unique hb hn hmem hmem' hi he hk he' hk' hname

/-- A slot stands for one vtable at a place. -/
theorem used_slot_inj (hc : c ∈ used env b path interface p) (hc' : c' ∈ used env b path interface p)
    (hs : c'.slot = c.slot) : c' = c := by
  obtain ⟨n, -, hmem, hmem'⟩ := used_at_node hc hc'
  exact vtables_slot_inj hmem hmem' hs

theorem used_nodup (hb : Served b) (p : Place) : (used env b path interface p).Nodup := by
  unfold used vtables_at
  cases hn : b.nodes p.node with
  | none => exact nodup_nil
  | some n => exact ((vtables_nodup hb hn).filter _).filter _

/-- The property of a vtable, by its name. -/
theorem property_of_eq (hb : Served b) (hc : c ∈ used env b path interface p)
    (he : e ∈ c.vtable.entries) (hk : e.kind = some .property) (hname : e.member = property) :
    property_of property c = some e := by
  cases h : property_of property c with
  | none =>
    have hnot := find?_eq_none.mp h e he
    rw [hk, hname] at hnot
    simp at hnot
  | some e' =>
    obtain ⟨he', hk', hname'⟩ := property_of_some h
    rw [(used_unique hb hc hc he hk he' hk' (hname'.trans hname.symm)).2]

/-- What is declared at a place is a property of a vtable that is used there. -/
theorem declared_at_iff (hb : Served b) : declared_at env b path interface property p = some x ↔
    x.1 ∈ used env b path interface p ∧ property_of property x.1 = some x.2 := by
  unfold declared_at
  constructor
  · intro h
    obtain ⟨l1, c, l2, hl, hc, -⟩ := findSome?_eq_some_iff.mp h
    obtain ⟨e, he, rfl⟩ := Option.map_eq_some_iff.mp hc
    refine ⟨?_, he⟩
    rw [hl]
    exact mem_append_right _ mem_cons_self
  · rintro ⟨hmem, hof⟩
    cases h : (used env b path interface p).findSome? fun c =>
        (property_of property c).map fun e => (c, e) with
    | none =>
      have hnot := findSome?_eq_none_iff.mp h x.1 hmem
      rw [hof] at hnot
      cases hnot
    | some y =>
      obtain ⟨l1, c, l2, hl, hc, -⟩ := findSome?_eq_some_iff.mp h
      obtain ⟨e, he, rfl⟩ := Option.map_eq_some_iff.mp hc
      have hcmem : c ∈ used env b path interface p := by
        rw [hl]
        exact mem_append_right _ mem_cons_self
      obtain ⟨he1, hk1, hn1⟩ := property_of_some hof
      obtain ⟨he2, hk2, hn2⟩ := property_of_some he
      obtain ⟨hsame, hsame'⟩ :=
        used_unique hb hmem hcmem he1 hk1 he2 hk2 (hn2.trans hn1.symm)
      exact congrArg some (Prod.ext hsame hsame')

/-- The vtable has the name in the table when it has a property of that name. -/
theorem named_eq (hb : Served b) (hc : c ∈ used env b path interface p) :
    named b interface p c property = (property_of property c).map fun e => (c, e) := by
  obtain ⟨hat, hi⟩ := mem_used.mp hc
  obtain ⟨n, hn, hmem, -⟩ := mem_vtables_at.mp hat
  cases hof : property_of property c with
  | some e =>
    obtain ⟨he, hk, hname⟩ := property_of_some hof
    have hget := set_get_property hb hn hmem he hk
    rw [hi, hname] at hget
    unfold named
    rw [hget, bind_some, if_pos rfl]
    rfl
  | none =>
    unfold named
    cases hget : set_get b .property (p.node, interface, property) with
    | none => rfl
    | some v =>
      rw [bind_some, if_neg]
      · rfl
      · intro hparent
        obtain ⟨hv, hpath, hinterface, hname⟩ := set_get_some hb hget
        obtain ⟨c', hc', hs, hi', he, hk, -⟩ := mem_vtables_of_owned hb hn hv hpath
        obtain rfl := vtables_slot_inj hmem hc' (hs.trans hparent.symm)
        rw [property_of_eq hb hc he hk hname] at hof
        cases hof

/-- What is sent of a place, for names: each that is declared there. -/
theorem emitted_at_perm (hb : Served b) (l : List (List UInt8)) (p : Place) :
    (emitted_at env b path interface (some l) p).Perm
      (l.filterMap fun x => declared_at env b path interface x p) := by
  unfold emitted_at emitted
  induction l with
  | nil => simp
  | cons x l ih =>
    have hone : (used env b path interface p).flatMap
        (fun c => (named b interface p c x).toList) =
          (declared_at env b path interface x p).toList := by
      cases hx : declared_at env b path interface x p with
      | none =>
        rw [Option.toList_none, flatMap_eq_nil_iff]
        intro c hc
        cases hof : property_of x c with
        | none =>
          rw [named_eq hb hc, hof]
          rfl
        | some e =>
          have hd : declared_at env b path interface x p = some (c, e) :=
            (declared_at_iff hb).mpr ⟨hc, hof⟩
          rw [hx] at hd
          cases hd
      | some y =>
        obtain ⟨hy, hof⟩ := (declared_at_iff hb).mp hx
        rw [flatMap_only (used_nodup hb p) hy]
        · rw [named_eq hb hy, hof]
          rfl
        · intro c hc hne
          cases hof' : property_of x c with
          | none =>
            rw [named_eq hb hc, hof']
            rfl
          | some e =>
            have hd : declared_at env b path interface x p = some (c, e) :=
              (declared_at_iff hb).mpr ⟨hc, hof'⟩
            rw [hx] at hd
            cases hd
            exact absurd rfl hne
    have hsplit : ∀ (f : List UInt8 → Option (BusNodeVTable × VtableEntry)),
        (x :: l).filterMap f = (f x).toList ++ l.filterMap f := by
      intro f
      rw [filterMap_cons]
      cases f x with
      | none => rfl
      | some y => rfl
    simp only [hsplit]
    rw [← hone]
    exact (flatMap_append_perm _ _ _).symm.trans (ih.append_left _)

/-- What the object has of a name, when it is declared here and not nearer. -/
theorem provided_of (h : places path = near ++ q :: far)
    (hnear : ∀ p ∈ near, declared_at env b path interface property p = none)
    (hq : declared_at env b path interface property q = some x) :
    provided env b path interface property = some x := by
  unfold provided
  rw [findSome?_eq_some_iff]
  exact ⟨near, q, far, h, hq, hnear⟩

theorem provided_some (h : provided env b path interface property = some x) :
    ∃ near q far, places path = near ++ q :: far ∧
      (∀ p ∈ near, declared_at env b path interface property p = none) ∧
        declared_at env b path interface property q = some x := by
  obtain ⟨near, q, far, hplaces, hq, hnear⟩ := findSome?_eq_some_iff.mp h
  exact ⟨near, q, far, hplaces, hnear, hq⟩

end provided

/-! ## Section 5: All that is concerned is at one place -/

section run
variable {Val : Type} {env : Callbacks Val} {b : Objects} {path : Path} {interface : List UInt8}
  {p q : Place} {c : BusNodeVTable} {x : BusNodeVTable × VtableEntry}
  {names : Option (List (List UInt8))} {near far ps : List Place} {m : PropertiesChanged Val}

/-- The first place that sends a signal. -/
theorem emit_on_ok {f : Bool} : emit_properties_changed_on env b path interface names ps f =
    .ok (some m) ↔ ∃ near q far, ps = near ++ q :: far ∧ (∀ p ∈ near, ∃ g,
        emit_properties_changed_on_interface env b path interface p names = .ok (g, none)) ∧
      ∃ g, emit_properties_changed_on_interface env b path interface q names = .ok (g, some m) := by
  induction ps generalizing f with
  | nil =>
    constructor
    · intro h
      unfold emit_properties_changed_on at h
      split at h
      · cases h
      · cases h
    · rintro ⟨near, q, far, h, -⟩
      cases near with
      | nil => cases h
      | cons p near => cases h
  | cons p ps ih =>
    unfold emit_properties_changed_on
    rw [bind_eq_ok]
    constructor
    · rintro ⟨⟨g, o⟩, hp, hrest⟩
      cases o with
      | some m' =>
        cases hrest
        exact ⟨[], p, ps, rfl, by simp, g, hp⟩
      | none =>
        obtain ⟨near, q, far, rfl, hnear, hq⟩ := ih.mp hrest
        exact ⟨p :: near, q, far, rfl, forall_mem_cons.mpr ⟨⟨g, hp⟩, hnear⟩, hq⟩
    · rintro ⟨near, q, far, h, hnear, g, hq⟩
      cases near with
      | nil =>
        obtain ⟨rfl, rfl⟩ := cons.inj h
        exact ⟨_, hq, rfl⟩
      | cons p' near =>
        obtain ⟨rfl, rfl⟩ := cons.inj h
        obtain ⟨⟨g', hp⟩, hnear⟩ := forall_mem_cons.mp hnear
        exact ⟨_, hp, ih.mpr ⟨near, q, far, rfl, hnear, g, hq⟩⟩

theorem mem_announced : x ∈ announced c ↔ x.1 = c ∧ x.2 ∈ c.vtable.entries ∧
    Announced x.2 = true := by
  unfold announced
  rw [mem_map]
  constructor
  · rintro ⟨e, he, rfl⟩
    exact ⟨rfl, mem_filter.mp he⟩
  · rintro ⟨rfl, he⟩
    exact ⟨x.2, mem_filter.mpr he, rfl⟩

variable {e : VtableEntry}

theorem announced_kind (h : Announced e = true) : e.kind = some .property := by
  unfold Announced at h
  rw [Bool.and_eq_true, Bool.and_eq_true, beq_iff_eq] at h
  exact h.1.1

/-- Every property is in one of the parts of the signal. -/
theorem parts_length (l : List (BusNodeVTable × VtableEntry)) :
    (changed_part env path l).length + (invalidated_part l).length = l.length := by
  unfold changed_part invalidated_part
  rw [length_map, length_map, Nat.add_comm]
  exact (length_eq_length_filter_add _).symm

variable {l' : List (BusNodeVTable × VtableEntry)}

variable {l : List (BusNodeVTable × VtableEntry)}

/-- The parts tell the names of what they are made of. -/
theorem names_of_parts (hchanged : (changed_part env path l).Perm (changed_part env path l'))
    (hinval : (invalidated_part l).Perm (invalidated_part l')) (hx : x ∈ l) :
    ∃ y ∈ l', y.2.member = x.2.member := by
  cases hflag : x.2.has_flag SD_BUS_VTABLE_PROPERTY_EMITS_INVALIDATION with
  | true =>
    have hmem : x.2.member ∈ invalidated_part l := by
      exact mem_map_of_mem (mem_filter.mpr ⟨hx, hflag⟩)
    have hmem' := hinval.mem_iff.mp hmem
    obtain ⟨y, hy, hname⟩ := mem_map.mp hmem'
    exact ⟨y, (mem_filter.mp hy).1, hname⟩
  | false =>
    have hmem : (x.2.member, env.get x.1.slot x.2 path) ∈ changed_part env path l := by
      refine mem_map.mpr ⟨x, mem_filter.mpr ⟨hx, ?_⟩, rfl⟩
      rw [hflag]
      rfl
    have hmem' := hchanged.mem_iff.mp hmem
    obtain ⟨y, hy, hpair⟩ := mem_map.mp hmem'
    exact ⟨y, (mem_filter.mp hy).1, (Prod.ext_iff.mp hpair).1⟩

theorem changed_part_perm (h : l.Perm l') :
    (changed_part env path l).Perm (changed_part env path l') := (h.filter _).map _

theorem invalidated_part_perm (h : l.Perm l') :
    (invalidated_part l).Perm (invalidated_part l') := (h.filter _).map _

/-- The nodes of the places are different. -/
theorem places_nodup (path : Path) : ((places path).map (·.node)).Nodup := by
  have hshort : ∀ fuel path, (∀ r ∈ prefixes_at fuel path, r.length < path.length) ∧
      (prefixes_at fuel path).Nodup := by
    intro fuel
    induction fuel with
    | zero => exact fun _ => ⟨by simp [prefixes_at], nodup_nil⟩
    | succ fuel ih =>
      intro path
      rw [prefixes_at]
      cases hparent : parent_path path with
      | none => exact ⟨by simp, nodup_nil⟩
      | some r =>
        have hlt := parent_path_lt hparent
        obtain ⟨hless, hnodup⟩ := ih r
        refine ⟨?_, nodup_cons.mpr ⟨fun hmem => Nat.lt_irrefl _ (hless r hmem), hnodup⟩⟩
        intro s hs
        rcases mem_cons.mp hs with rfl | hs
        · exact hlt
        · exact (hless s hs).trans hlt
  obtain ⟨hless, hnodup⟩ := hshort path.length path
  have hmap : (places path).map (·.node) = path :: prefixes path := by
    unfold places
    rw [map_cons, map_map]
    congr 1
    exact map_id _
  rw [hmap]
  exact nodup_cons.mpr ⟨fun hmem => Nat.lt_irrefl _ (hless path hmem), hnodup⟩

/-- A vtable is at one node. -/
theorem used_node (hb : Served b) (hc : c ∈ used env b path interface p)
    (hc' : c ∈ used env b path interface q) : p.node = q.node := by
  obtain ⟨n, hn, hmem, -⟩ := mem_vtables_at.mp (mem_used.mp hc).1
  obtain ⟨n', hn', hmem', -⟩ := mem_vtables_at.mp (mem_used.mp hc').1
  obtain ⟨x, hx, hat⟩ := (hb.list _ _ _ hn).mp (mem_vtables.mp hmem).1
  obtain ⟨y, hy, hat'⟩ := (hb.list _ _ _ hn').mp (mem_vtables.mp hmem').1
  obtain rfl := some.inj (hx.symm.trans hy)
  exact some.inj (hat.2.2.symm.trans hat'.2.2)

variable {property : List UInt8}

/-- What is declared at a place is in the table. -/
theorem set_get_of (hb : Served b) (hc : c ∈ used env b path interface p)
    (he : property_of property c = some e) : set_get b .property (p.node, interface, property) =
      some ⟨c.slot, p.node, interface, property, e⟩ := by
  obtain ⟨hat, hi⟩ := mem_used.mp hc
  obtain ⟨n, hn, hmem, -⟩ := mem_vtables_at.mp hat
  obtain ⟨hmem', hk, hname⟩ := property_of_some he
  have hget := set_get_property hb hn hmem hmem' hk
  rw [hi, hname] at hget
  exact hget

/-- A place is passed when it returns without a signal. -/
theorem passed_iff : Passed env b path interface names p ↔
    ∃ g, Returns env b path interface p names (g, none) := by
  have hsent : ∀ g, Returns env b path interface p names (g, none) →
      emitted_at env b path interface names p = [] := by
    intro g h
    by_contra hne
    have hsent := h.sent
    rw [if_neg hne] at hsent
    cases hsent
  have hreturns : (∀ c ∈ used env b path interface p, AllAccepted b interface p names c) →
      emitted_at env b path interface names p = [] →
        Returns env b path interface p names (!(used env b path interface p).isEmpty, none) := by
    intro haccepted hnil
    refine ⟨haccepted, rfl, by rw [if_pos hnil], ?_⟩
    intro hany
    rw [hnil] at hany
    cases hany
  cases names with
  | none =>
    constructor
    · intro h
      exact ⟨_, hreturns (fun _ _ => nofun) (flatMap_eq_nil_iff.mpr h)⟩
    · rintro ⟨g, h⟩
      exact flatMap_eq_nil_iff.mp (hsent g h)
  | some l =>
    constructor
    · intro h
      refine ⟨_, hreturns ?_ (flatMap_eq_nil_iff.mpr ?_)⟩
      · rintro c hc l' hl' property hproperty
        cases hl'
        rcases h with hused | h
        · rw [hused] at hc
          cases hc
        · obtain ⟨v, hv, hother⟩ := h property hproperty
          exact ⟨v, hv, fun hs => absurd hs (hother c hc)⟩
      · intro c hc
        refine filterMap_eq_nil_iff.mpr fun property hproperty => ?_
        rcases h with hused | h
        · rw [hused] at hc
          cases hc
        · obtain ⟨v, hv, hother⟩ := h property hproperty
          unfold named
          rw [hv, bind_some, if_neg (hother c hc)]
    · rintro ⟨g, h⟩
      cases hused : used env b path interface p with
      | nil => exact .inl hused
      | cons c0 us =>
        have hc0 : c0 ∈ used env b path interface p := by
          rw [hused]
          exact mem_cons_self
        refine .inr fun property hproperty => ?_
        obtain ⟨v, hv, -⟩ := h.accepted c0 hc0 l rfl property hproperty
        refine ⟨v, hv, fun c hc hs => ?_⟩
        have hnone := flatMap_eq_nil_iff.mp (hsent g h) c hc
        have hnamed := filterMap_eq_nil_iff.mp hnone property hproperty
        unfold named at hnamed
        rw [hv, bind_some, if_pos hs] at hnamed
        cases hnamed

variable {l : List (List UInt8)}

/-- Nothing that is named is declared at a place that is passed. -/
theorem undeclared_of_passed (hb : Served b) (h : Passed env b path interface (some l) p)
    (hproperty : property ∈ l) : declared_at env b path interface property p = none := by
  cases hd : declared_at env b path interface property p with
  | none => rfl
  | some x =>
    obtain ⟨hused, hof⟩ := (declared_at_iff hb).mp hd
    rcases h with hnil | h
    · rw [hnil] at hused
      cases hused
    · obtain ⟨v, hv, hother⟩ := h property hproperty
      rw [set_get_of hb hused hof] at hv
      cases hv
      exact absurd rfl (hother x.1 hused)

/-- What is named is declared where all is. -/
theorem declared_here (hb : Served b) (hnames : Nameable env b path interface (some l))
    (h : ∀ x ∈ concerned env b path interface (some l), x.1 ∈ used env b path interface q)
    (hproperty : property ∈ l) : ∃ x ∈ concerned env b path interface (some l),
      provided env b path interface property = some x ∧
        declared_at env b path interface property q = some x ∧ Marked x.2 = true := by
  obtain ⟨-, x, hx, hmarked⟩ := hnames l rfl property hproperty
  have hmem : x ∈ concerned env b path interface (some l) :=
    mem_filterMap.mpr ⟨property, hproperty, hx⟩
  obtain ⟨_, _, _, -, -, hd⟩ := provided_some hx
  exact ⟨x, hmem, hx, (declared_at_iff hb).mpr ⟨h x hmem, ((declared_at_iff hb).mp hd).2⟩, hmarked⟩

/-- What is concerned, when nothing is named. -/
theorem mem_concerned_none : x ∈ concerned env b path interface none ↔
    (∃ p ∈ places path, x.1 ∈ used env b path interface p) ∧ x ∈ announced x.1 ∧
      provided env b path interface x.2.member = some x := by
  unfold concerned
  rw [mem_filter, decide_eq_true_eq, mem_flatMap]
  constructor
  · rintro ⟨⟨p, hp, hx⟩, hprovided⟩
    obtain ⟨c, hc, hx⟩ := mem_flatMap.mp hx
    obtain ⟨rfl, -⟩ := mem_announced.mp hx
    exact ⟨⟨p, hp, hc⟩, hx, hprovided⟩
  · rintro ⟨⟨p, hp, hc⟩, hx, hprovided⟩
    exact ⟨⟨p, hp, mem_flatMap.mpr ⟨x.1, hc, hx⟩⟩, hprovided⟩

section
variable (hb : Served b) (hnames : Nameable env b path interface names)
  (h : AnnouncedAt env b path interface names near q far)
include hb hnames h

/-- The place sends all that is concerned, and no more. -/
theorem emitted_perm :
    (emitted_at env b path interface names q).Perm (concerned env b path interface names) := by
  cases names with
  | some l =>
    refine (emitted_at_perm hb l q).trans (List.Perm.of_eq ?_)
    refine filterMap_congr fun property hproperty => ?_
    obtain ⟨x, -, hx, hd, -⟩ := declared_here hb hnames h.here hproperty
    rw [hx, hd]
  | none =>
    have hnear : (near.flatMap fun p => (used env b path interface p).flatMap announced) = [] :=
      flatMap_eq_nil_iff.mpr fun p hp => flatMap_eq_nil_iff.mpr (h.passed p hp)
    have hq : ((used env b path interface q).flatMap announced).filter
        (fun x => decide (provided env b path interface x.2.member = some x)) =
          (used env b path interface q).flatMap announced := by
      refine filter_eq_self.mpr fun x hx => ?_
      obtain ⟨c, hc, hx⟩ := mem_flatMap.mp hx
      exact decide_eq_true (h.nearest rfl c hc x hx)
    have hfar : (far.flatMap fun p => (used env b path interface p).flatMap announced).filter
        (fun x => decide (provided env b path interface x.2.member = some x)) = [] := by
      refine filter_eq_nil_iff.mpr fun x hx hprovided => ?_
      obtain ⟨p, hp, hx⟩ := mem_flatMap.mp hx
      obtain ⟨c, hc, hx⟩ := mem_flatMap.mp hx
      obtain ⟨rfl, -⟩ := mem_announced.mp hx
      have hplace : p ∈ places path := by
        rw [h.places]
        exact mem_append_right _ (mem_cons_of_mem _ hp)
      have hhere := h.here x (mem_concerned_none.mpr ⟨⟨p, hplace, hc⟩, hx, of_decide_eq_true hprovided⟩)
      -- a vtable is at one node, and the nodes of the places differ
      have hnodup := places_nodup path
      rw [h.places, map_append, map_cons] at hnodup
      have hnot := (nodup_cons.mp (nodup_append.mp hnodup).2.1).1
      rw [← used_node hb hc hhere] at hnot
      exact hnot (mem_map_of_mem hp)
    unfold emitted_at concerned
    rw [h.places, flatMap_append, hnear, nil_append, flatMap_cons,
      filter_append, hq, hfar, append_nil]
    rfl

/-- The place returns a signal of what is concerned. -/
theorem returns_here : ∃ changed invalidated, Returns env b path interface q names
        (!(used env b path interface q).isEmpty, some ⟨path, interface, changed, invalidated⟩) ∧
      changed.Perm (changed_part env path (concerned env b path interface names)) ∧
      invalidated.Perm (invalidated_part (concerned env b path interface names)) := by
  have hperm := emitted_perm hb hnames h
  have hne : emitted_at env b path interface names q ≠ [] :=
    fun hnil => h.something (perm_nil.mp (hnil ▸ hperm).symm)
  refine ⟨_, _, ⟨?_, rfl, by rw [if_neg hne], ?_⟩, changed_part_perm hperm,
    invalidated_part_perm hperm⟩
  · rintro c hc l rfl property hproperty
    obtain ⟨x, hx, -, hd, hmarked⟩ := declared_here hb hnames h.here hproperty
    obtain ⟨hused, hof⟩ := (declared_at_iff hb).mp hd
    exact ⟨_, set_get_of hb hused hof, fun _ => ⟨hmarked, h.visible (by simp) x hx⟩⟩
  · rintro hany c hc l rfl property hproperty
    obtain ⟨y, hy, hinval⟩ := any_eq_true.mp hany
    obtain ⟨x, hx, -, hd, -⟩ := declared_here hb hnames h.here hproperty
    obtain ⟨hused, hof⟩ := (declared_at_iff hb).mp hd
    have halone := h.alone (by simp) y (hperm.mem_iff.mp hy) hinval
    refine ⟨_, set_get_of hb hused hof, ?_⟩
    rw [halone c hc, halone x.1 hused]

end

/-- If all is at one place, one signal is sent. -/
theorem announces_of_one_place (hb : Served b) (hpath : object_path_is_valid path = true)
    (hnames : Nameable env b path interface names)
    (h : AnnouncedAt env b path interface names near q far) :
    Announces env b path interface names := by
  have hvalid : AllValid names := fun l hl x hx => (hnames l hl x hx).1
  have hinterface : interface_name_is_valid interface = true := by
    obtain ⟨x, hx⟩ := exists_mem_of_ne_nil _ h.something
    obtain ⟨hat, hi⟩ := mem_used.mp (h.here x hx)
    rw [← hi]
    exact (interface_valid hb hat).1
  have hsome : names ≠ some [] := by
    rintro rfl
    exact h.something rfl
  obtain ⟨changed, invalidated, hreturns, hchanged, hinvalidated⟩ := returns_here hb hnames h
  refine ⟨changed, invalidated, ?_, hchanged, hinvalidated⟩
  unfold sd_bus_emit_properties_changed_strv
  rw [hpath, hinterface, if_neg hsome]
  refine emit_on_ok.mpr ⟨near, q, far, h.places, fun p hp => ?_, _, (on_interface_ok hb hvalid).mpr
    hreturns⟩
  obtain ⟨g, hg⟩ := passed_iff.mp (h.passed p hp)
  exact ⟨g, (on_interface_ok hb hvalid).mpr hg⟩

/-- All that is named is declared at the place that sends the signal: the signal
    would be too short otherwise. -/
theorem declared_of_length (hb : Served b) (hnames : Nameable env b path interface (some l))
    (hlength : (emitted_at env b path interface (some l) q).length = (concerned env b path interface (some l)).length)
    (hproperty : property ∈ l) : (declared_at env b path interface property q).isSome := by
  rw [(emitted_at_perm hb l q).length_eq] at hlength
  have hall : (concerned env b path interface (some l)).length = l.length := by
    unfold concerned
    rw [filterMap_length_eq_length]
    intro x hx
    obtain ⟨-, y, hy, -⟩ := hnames l rfl x hx
    rw [hy]
    rfl
  rw [hall, filterMap_length_eq_length] at hlength
  exact hlength property hproperty

/-- When nothing is named. -/
theorem announced_at_none (hb : Served b) (hplaces : places path = near ++ q :: far)
    (hpassed : ∀ p ∈ near, Passed env b path interface none p)
    (hsomething : concerned env b path interface none ≠ [])
    (hchanged : (changed_part env path (emitted_at env b path interface none q)).Perm
      (changed_part env path (concerned env b path interface none)))
    (hinvalidated : (invalidated_part (emitted_at env b path interface none q)).Perm
      (invalidated_part (concerned env b path interface none))) :
    AnnouncedAt env b path interface none near q far := by
  have hhere : ∀ x ∈ concerned env b path interface none, x.1 ∈ used env b path interface q := by
    intro x hx
    obtain ⟨y, hy, hname⟩ := names_of_parts hchanged.symm hinvalidated.symm hx
    obtain ⟨c, hc, hy⟩ := mem_flatMap.mp hy
    obtain ⟨rfl, hmem, hannounced⟩ := mem_announced.mp hy
    obtain ⟨-, hx, hprovided⟩ := mem_concerned_none.mp hx
    obtain ⟨near', q', far', hplaces', hnear', hd⟩ := provided_some hprovided
    obtain ⟨hused, -⟩ := (declared_at_iff hb).mp hd
    rcases split_lt (hplaces'.symm.trans hplaces) with ⟨-, hq'⟩ | ⟨-, rfl⟩ | ⟨-, hq⟩
    -- what is passed has nothing to announce
    · rw [hpassed q' hq' x.1 hused] at hx
      cases hx
    · exact hused
    -- and what is nearest is not declared nearer
    · have hd' : declared_at env b path interface x.2.member q = some y :=
        (declared_at_iff hb).mpr
          ⟨hc, property_of_eq hb hc hmem (announced_kind hannounced) hname⟩
      rw [hnear' q hq] at hd'
      cases hd'
  refine ⟨hplaces, hpassed, hsomething, hhere, ?_, fun h => absurd rfl h, fun h => absurd rfl h⟩
  intro _ c hc y hy
  obtain ⟨rfl, hmem, hannounced⟩ := mem_announced.mp hy
  obtain ⟨x, hx, hname⟩ :=
    names_of_parts hchanged hinvalidated (mem_flatMap.mpr ⟨y.1, hc, hy⟩)
  obtain ⟨-, hx', hprovided⟩ := mem_concerned_none.mp hx
  obtain ⟨-, hmem', hannounced'⟩ := mem_announced.mp hx'
  obtain ⟨hsame, hsame'⟩ := used_unique hb hc (hhere x hx) hmem (announced_kind hannounced) hmem'
    (announced_kind hannounced') hname
  rw [← hname, hprovided, Prod.ext hsame hsame']

/-- When there are names. -/
theorem announced_at_some (hb : Served b) {g : Bool}
    (hnames : Nameable env b path interface (some l)) (hplaces : places path = near ++ q :: far)
    (hpassed : ∀ p ∈ near, Passed env b path interface (some l) p)
    (hsomething : concerned env b path interface (some l) ≠ [])
    (hlength : (emitted_at env b path interface (some l) q).length = (concerned env b path interface (some l)).length)
    (hinvalidated : (invalidated_part (emitted_at env b path interface (some l) q)).Perm (invalidated_part (concerned env b path interface (some l))))
    (hq : Returns env b path interface q (some l) (g, some m)) :
    AnnouncedAt env b path interface (some l) near q far := by
  have hdeclared : ∀ x ∈ concerned env b path interface (some l), ∃ property ∈ l,
      declared_at env b path interface property q = some x := by
    intro x hx
    obtain ⟨property, hproperty, hx⟩ := mem_filterMap.mp hx
    obtain ⟨y, hy⟩ := Option.isSome_iff_exists.mp (declared_of_length hb hnames hlength hproperty)
    have hprovided := provided_of hplaces
      (fun p hp => undeclared_of_passed hb (hpassed p hp) hproperty) hy
    rw [hx] at hprovided
    cases hprovided
    exact ⟨property, hproperty, hy⟩
  refine ⟨hplaces, hpassed, hsomething, ?_, nofun, ?_, ?_⟩
  · intro x hx
    obtain ⟨property, -, hd⟩ := hdeclared x hx
    exact ((declared_at_iff hb).mp hd).1
  · intro _ x hx
    obtain ⟨property, hproperty, hd⟩ := hdeclared x hx
    obtain ⟨hused, hof⟩ := (declared_at_iff hb).mp hd
    obtain ⟨v, hv, haccepted⟩ := hq.accepted x.1 hused l rfl property hproperty
    rw [set_get_of hb hused hof] at hv
    cases hv
    exact (haccepted rfl).2
  · intro _ x hx hinval c hc
    obtain ⟨property, hproperty, hd⟩ := hdeclared x hx
    obtain ⟨hused, hof⟩ := (declared_at_iff hb).mp hd
    have hany : (emitted_at env b path interface (some l) q).any
        (fun x => x.2.has_flag SD_BUS_VTABLE_PROPERTY_EMITS_INVALIDATION) = true := by
      have hmem : x.2.member ∈ invalidated_part (concerned env b path interface (some l)) :=
        mem_map_of_mem (mem_filter.mpr ⟨hx, hinval⟩)
      obtain ⟨y, hy, -⟩ := mem_map.mp (hinvalidated.mem_iff.mpr hmem)
      obtain ⟨hy, hyinval⟩ := mem_filter.mp hy
      exact any_eq_true.mpr ⟨y, hy, hyinval⟩
    obtain ⟨v, hv, hs⟩ := hq.owned hany c hc l rfl property hproperty
    rw [set_get_of hb hused hof] at hv
    cases hv
    exact used_slot_inj hused hc hs

/-- If one signal is sent, all that it is about is at one place. -/
theorem one_place_of_announces (hb : Served b) (hnames : Nameable env b path interface names)
    (h : Announces env b path interface names) :
    ∃ near q far, AnnouncedAt env b path interface names near q far := by
  have hvalid : AllValid names := fun l hl x hx => (hnames l hl x hx).1
  obtain ⟨changed, invalidated, hsent, hchanged, hinvalidated⟩ := h
  unfold sd_bus_emit_properties_changed_strv at hsent
  split at hsent
  · cases hsent
  split at hsent
  · cases hsent
  split at hsent
  · cases hsent
  split at hsent
  · cases hsent
  obtain ⟨near, q, far, hplaces, hnear, g, hq⟩ := emit_on_ok.mp hsent
  rw [on_interface_ok hb hvalid] at hq
  have hpassed : ∀ p ∈ near, Passed env b path interface names p := by
    intro p hp
    obtain ⟨g, hg⟩ := hnear p hp
    exact passed_iff.mpr ⟨g, (on_interface_ok hb hvalid).mp hg⟩
  have hne : emitted_at env b path interface names q ≠ [] := by
    intro hnil
    have hnone := hq.sent
    rw [if_pos hnil] at hnone
    cases hnone
  have hsent := hq.sent
  rw [if_neg hne, some.injEq] at hsent
  obtain ⟨-, -, rfl, rfl⟩ := hsent
  have hlength : (emitted_at env b path interface names q).length =
      (concerned env b path interface names).length := by
    calc (emitted_at env b path interface names q).length
        = (changed_part env path (emitted_at env b path interface names q)).length +
            (invalidated_part (emitted_at env b path interface names q)).length :=
          (parts_length _).symm
      _ = (changed_part env path (concerned env b path interface names)).length +
            (invalidated_part (concerned env b path interface names)).length := by
          rw [hchanged.length_eq, hinvalidated.length_eq]
      _ = (concerned env b path interface names).length := parts_length _
  have hsomething : concerned env b path interface names ≠ [] := by
    intro hnil
    rw [hnil, length_nil, length_eq_zero_iff] at hlength
    exact hne hlength
  refine ⟨near, q, far, ?_⟩
  cases names with
  | none => exact announced_at_none hb hplaces hpassed hsomething hchanged hinvalidated
  | some l => exact announced_at_some hb hnames hplaces hpassed hsomething hlength hinvalidated hq

/-- The signal for an interface has all that is concerned if and only if all that
    is concerned is at one place. -/
theorem emit_properties_changed_iff (hb : Served b) (hpath : object_path_is_valid path = true)
    (hnames : Nameable env b path interface names) :
    Announces env b path interface names ↔
      ∃ near q far, AnnouncedAt env b path interface names near q far :=
  ⟨one_place_of_announces hb hnames, fun ⟨_, _, _, h⟩ => announces_of_one_place hb hpath hnames h⟩

end run

/-! ## Section 6: One interface in two vtables -/

/-- A vtable with one property, and its mark. -/
def marked_property (address : Nat) (member : List UInt8) (mark : UInt64) : Vtable where
  address := address
  start := true
  flags := 0
  element_size := VTABLE_ELEMENT_SIZE_221
  vtable_format_reference := false
  features := 0
  entries := [⟨.property, mark, member, ascii "u", [], [], false, true, false⟩]

/-- `/a` has two vtables of the interface `x.A`, with a property that emits a
    change and one that emits an invalidation. -/
def two_marks : Objects :=
  ((ObjectCall.add_vtable 20 false false (ascii "/a") (ascii "x.A")
    (marked_property 1 (ascii "Q") SD_BUS_VTABLE_PROPERTY_EMITS_INVALIDATION)).run
    { ((ObjectCall.add_vtable 20 false false (ascii "/a") (ascii "x.A")
      (marked_property 0 (ascii "P") SD_BUS_VTABLE_PROPERTY_EMITS_CHANGE)).run
      { Objects.new with memory := 20 }).2 with memory := 20 }).2

theorem two_marks_reachable : Reachable (object_system.restrict Clean) two_marks := by
  refine .step (a := .add_vtable 20 false false (ascii "/a") (ascii "x.A")
      (marked_property 1 (ascii "Q") SD_BUS_VTABLE_PROPERTY_EMITS_INVALIDATION))
    (.step (a := .add_vtable 20 false false (ascii "/a") (ascii "x.A")
      (marked_property 0 (ascii "P") SD_BUS_VTABLE_PROPERTY_EMITS_CHANGE)) (.init rfl)
      ⟨?_, ?_, rfl⟩) ⟨?_, ?_, rfl⟩
  · intro path hpath
    have hsome : (ObjectCall.add_vtable 20 false false (ascii "/a") (ascii "x.A")
      (marked_property 0 (ascii "P") SD_BUS_VTABLE_PROPERTY_EMITS_CHANGE)).node_path =
        some (ascii "/a") := by decide +kernel
    obtain rfl : ascii "/a" = path := some.inj (hsome.symm.trans hpath)
    unfold AllOrNone
    decide +kernel
  · decide +kernel
  · intro path hpath
    have hsome : (ObjectCall.add_vtable 20 false false (ascii "/a") (ascii "x.A")
      (marked_property 1 (ascii "Q") SD_BUS_VTABLE_PROPERTY_EMITS_INVALIDATION)).node_path =
        some (ascii "/a") := by decide +kernel
    obtain rfl : ascii "/a" = path := some.inj (hsome.symm.trans hpath)
    unfold AllOrNone
    decide +kernel
  · decide +kernel

theorem two_marks_served : Served two_marks := served_of_reachable two_marks_reachable

theorem two_marks_nameable : Nameable one_value two_marks (ascii "/a") (ascii "x.A")
    (some [ascii "P", ascii "Q"]) := by
  intro l hl
  cases hl
  intro property hproperty
  simp only [mem_cons, not_mem_nil, or_false] at hproperty
  rcases hproperty with rfl | rfl
  · exact ⟨by decide, ⟨⟨0, false, ascii "x.A",
      marked_property 0 (ascii "P") SD_BUS_VTABLE_PROPERTY_EMITS_CHANGE⟩, ⟨.property,
      SD_BUS_VTABLE_PROPERTY_EMITS_CHANGE, ascii "P", ascii "u", [], [], false, true, false⟩⟩,
      by decide +kernel⟩
  · exact ⟨by decide, ⟨⟨1, false, ascii "x.A",
      marked_property 1 (ascii "Q") SD_BUS_VTABLE_PROPERTY_EMITS_INVALIDATION⟩, ⟨.property,
      SD_BUS_VTABLE_PROPERTY_EMITS_INVALIDATION, ascii "Q", ascii "u", [], [], false, true,
      false⟩⟩, by decide +kernel⟩

/-- Whether a signal for both is sent. -/
theorem emit_properties_changed_two_marks :
    Announces one_value two_marks (ascii "/a") (ascii "x.A") (some [ascii "P", ascii "Q"]) ↔
      ∃ near q far, AnnouncedAt one_value two_marks (ascii "/a") (ascii "x.A")
        (some [ascii "P", ascii "Q"]) near q far :=
  emit_properties_changed_iff two_marks_served (by decide) two_marks_nameable

/-- It is not: an assertion fails. -/
theorem emit_two_marks_abort : sd_bus_emit_properties_changed_strv one_value two_marks (ascii "/a")
    (ascii "x.A") true (some [ascii "P", ascii "Q"]) = .abort := by
  decide +kernel

theorem properties_changed_not_sent : ¬ ∀ (env : Callbacks Nat) (b : Objects) (path : Path)
    (interface : List UInt8) (names : Option (List (List UInt8))), Served b →
      object_path_is_valid path = true → Nameable env b path interface names →
        Announces env b path interface names := by
  intro h
  obtain ⟨changed, invalidated, hsent, -⟩ := h one_value two_marks (ascii "/a") (ascii "x.A")
    (some [ascii "P", ascii "Q"]) two_marks_served (by decide) two_marks_nameable
  rw [emit_two_marks_abort] at hsent
  cases hsent

end SdCompat.Objects
