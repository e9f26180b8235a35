import Mathlib.Data.List.Nodup
import SdCompat.Lib.Transition
import SdCompat.SdBus.ObjectsNodes

/-! # Registering and unregistering objects (bus-objects.c, bus-slot.c)

    Whatever is added and taken out again, the node table holds the paths that
    something is registered at and those above them, and the tables of members
    hold the members of the vtables that are registered, unless memory runs out
    half-way through making the nodes of a path: those that have been made by
    then stay, with nothing registered at them (`object_tree_leftover`).
-/

namespace SdCompat.Objects

open Bus Call Transition List Objects

/-! ## Section 1: What is registered -/

/-- What a program does with the objects of a bus. Each addition can allocate
    `memory` times. -/
inductive ObjectCall where
  | add_object (memory : Nat) (floating fallback : Bool) (path : Path) (callback : Bool)
  | add_node_enumerator (memory : Nat) (floating : Bool) (path : Path) (callback : Bool)
  | add_object_manager (memory : Nat) (floating : Bool) (path : Path)
  | add_vtable (memory : Nat) (floating fallback : Bool) (path : Path) (interface : List UInt8)
      (vtable : Vtable)
  | slot_ref (s : SlotId)
  | slot_unref (s : SlotId)
  | slot_disconnect (s : SlotId)

def ObjectCall.memory : ObjectCall → Nat
  | .add_object memory _ _ _ _ | .add_node_enumerator memory _ _ _ | .add_object_manager memory _ _
  | .add_vtable memory _ _ _ _ _ => memory
  | .slot_ref _ | .slot_unref _ | .slot_disconnect _ => 0

def ObjectCall.run : ObjectCall → Call Objects PUnit
  | .add_object _ floating fallback path callback => do
    let _ ← bus_add_object floating fallback path callback
  | .add_node_enumerator _ floating path callback => do
    let _ ← sd_bus_add_node_enumerator floating path callback
  | .add_object_manager _ floating path => do
    let _ ← sd_bus_add_object_manager floating path
  | .add_vtable _ floating fallback path interface vtable => do
    let _ ← add_object_vtable_internal floating fallback path interface vtable
  | .slot_ref s => sd_bus_slot_ref s
  | .slot_unref s => sd_bus_slot_unref s
  | .slot_disconnect s => bus_slot_disconnect s

/-- The path a call makes nodes for, once it has checked what it is given. -/
def ObjectCall.node_path : ObjectCall → Option Path
  | .add_object _ _ _ path callback | .add_node_enumerator _ _ path callback =>
    if object_path_is_valid path && callback then some path else none
  | .add_object_manager _ _ path => if object_path_is_valid path then some path else none
  | .add_vtable _ _ _ path interface vtable =>
    if object_path_is_valid path && interface_name_is_valid interface && vtable.start &&
        (vtable.element_size == VTABLE_ELEMENT_SIZE_221 ||
          VTABLE_ELEMENT_SIZE_242 ≤ vtable.element_size) && !reserved_interface interface then some path
    else none
  | .slot_ref _ | .slot_unref _ | .slot_disconnect _ => none

/-- A slot that is registered at this path. -/
def Slot.At (x : Slot) (t : BusSlotType) (q : Path) : Prop :=
  x.bus = true ∧ x.type = t ∧ x.node = some q

/-- What is registered at the nodes. -/
def registry (b : Objects) : Registry := fun s t q => ∃ x, b.slots s = some x ∧ x.At t q

/-- The members of the vtable of a slot. -/
def Slot.Owns (x : Slot) (s : SlotId) (k : MemberKind) (m : BusVTableMember) : Prop :=
  ∃ path interface vtable v, x.At .node_vtable path ∧ x.interface = some interface ∧
    x.vtable = some vtable ∧ v ∈ vtable.entries ∧ v.kind = some k ∧
    m = ⟨s, path, interface, v.member, v⟩

/-- A member of a vtable that is registered. -/
def Owned (b : Objects) (k : MemberKind) (m : BusVTableMember) : Prop :=
  ∃ s x, b.slots s = some x ∧ x.Owns s k m

/-- The object tree and the tables of members agree with what is registered:
    the node table has the paths where something is registered and those above
    them, linked parent to child, and each table has exactly the members of the
    vtables, and each key once. -/
structure Consistent (b : Objects) : Prop where
  nodes : ∀ q, (b.nodes q).isSome ↔
    ∃ s x t path, b.slots s = some x ∧ x.At t path ∧ paths.Above q path
  parent : ∀ q n, b.nodes q = some n → n.parent = parent_path q
  child : ∀ q n, b.nodes q = some n →
    n.child.Nodup ∧ ∀ c, c ∈ n.child ↔ parent_path c = some q ∧ (b.nodes c).isSome
  list : ∀ q n t, b.nodes q = some n →
    (n.list t).Nodup ∧ ∀ s, s ∈ n.list t ↔ ∃ x, b.slots s = some x ∧ x.At t q
  members : ∀ k m, m ∈ b.members k ↔ Owned b k m
  keys : ∀ k, ((b.members k).map (·.key)).Nodup

/-- The tables of members, for those that are to be in them. -/
structure Tables (b : Objects) (own : MemberKind → BusVTableMember → Prop) : Prop where
  members : ∀ k m, m ∈ b.members k ↔ own k m
  keys : ∀ k, ((b.members k).map (·.key)).Nodup

/-- The nodes are consistent, while a path may have some that nothing keeps
    yet, and the next slot is new. -/
structure Placed (b : Objects) (above : Path → Prop) : Prop where
  tree : Tree b (registry b)
  nodes : ∀ q, (b.nodes q).isSome ↔ paths.Covers (registry b).At q ∨ above q
  slash : ∀ q, (registry b).At q → Slash q
  fresh : ∀ s, b.next_slot ≤ s → b.slots s = none

/-- So are the tables. -/
structure Growing (b : Objects) (above : Path → Prop) : Prop extends Placed b above where
  tables : Tables b (Owned b)

/-- Consistent, and the next slot is new. -/
def Good (b : Objects) : Prop := Growing b fun _ => False

section good
variable {b b' : Objects} {path q : Path} {s : SlotId} {x y : Slot} {above : Path → Prop}

theorem Good.consistent (h : Good b) : Consistent b := by
  refine ⟨fun q => ?_, h.tree.parent, fun q n hn => ⟨h.tree.child_nodup q n hn, fun c =>
    h.tree.child q n c hn⟩, fun q n t hn => ⟨h.tree.list_nodup q n t hn, fun s =>
    h.tree.list q n t s hn⟩, h.tables.members, h.tables.keys⟩
  rw [h.nodes, or_false]
  constructor
  · rintro ⟨p, ⟨s, t, x, hx, hat⟩, habove⟩
    exact ⟨s, x, t, p, hx, hat, habove⟩
  · rintro ⟨s, x, t, p, hx, hat, habove⟩
    exact ⟨p, ⟨s, t, x, hx, hat⟩, habove⟩

theorem Frame.registry (h : Frame b b') : registry b' = registry b := by
  unfold Objects.registry
  rw [h.slots]

theorem Frame.owned (h : Frame b b') : Owned b' = Owned b := by
  unfold Owned
  rw [h.slots]

variable {own : MemberKind → BusVTableMember → Prop}

theorem Tables.of_frame (h : Tables b own) (hf : Frame b b') : Tables b' own := by
  constructor
  all_goals rw [hf.members]
  exacts [h.members, h.keys]

/-- Other nodes, for the same slots. -/
theorem Growing.of_frame {above' : Path → Prop} (h : Growing b above) (hf : Frame b b')
    (htree : Tree b' (registry b))
    (hnodes : ∀ q, (b'.nodes q).isSome ↔ paths.Covers (registry b).At q ∨ above' q) :
    Growing b' above' := by
  refine ⟨⟨?_, ?_, ?_, ?_⟩, ?_⟩
  · rw [hf.registry]
    exact htree
  · rw [hf.registry]
    exact hnodes
  · rw [hf.registry]
    exact h.slash
  · rw [hf.slots, hf.next_slot]
    exact h.fresh
  · rw [hf.owned]
    exact h.tables.of_frame hf

/-- Only the nodes, the slots and the tables matter. -/
theorem Growing.congr (h : Growing b above) (hs : Same b b') : Growing b' above :=
  h.of_frame hs.2 (h.tree.congr hs.1) (by rw [hs.1]; exact h.nodes)

/-- The nodes of a path are made. -/
theorem Good.allocate (h : Good b) (hslash : Slash path) (hclean : AllOrNone b (b.missing path)) :
    Ensures (bus_node_allocate path) b (fun _ b' => Growing b' (paths.Above · path)) Good := by
  refine ensures_mono (ensures_allocate hslash h.tree hclean) ?_ fun b' hs => h.congr hs
  rintro _ b' hmade
  refine h.of_frame hmade.frame hmade.tree fun q => ?_
  rw [hmade.nodes, h.nodes, or_false]

variable {E : Objects → Prop}

/-- Those that nothing keeps are collected. -/
theorem Growing.gc (h : Growing b (paths.Above · path)) (hpos : 0 < path.length) :
    Ensures (bus_node_gc path) b (fun _ => Good) E := by
  refine ensures_mono (ensures_gc hpos h.tree h.nodes) ?_ fun _ h => h
  rintro _ b' ⟨htree, hexact, hframe⟩
  refine h.of_frame hframe htree fun q => ?_
  rw [hexact, or_false]

/-! ## Section 2: Slots -/

theorem ensures_slot {Q : Slot → Objects → Prop} (hx : b.slots s = some x) (h : Q x b) :
    Ensures (slot s) b Q E := by
  refine ensures_get_bind ?_
  rw [hx]
  exact ensures_pure h

theorem ensures_update_slot {Q : PUnit → Objects → Prop} {f : Slot → Slot} (hx : b.slots s = some x)
    (h : Q ⟨⟩ (b.set_slot s (some (f x)))) : Ensures (update_slot s f) b Q E := by
  refine ensures_bind (ensures_slot (Q := fun y b' => y = x ∧ b' = b) hx ⟨rfl, rfl⟩) ?_
  rintro y b' ⟨rfl, rfl⟩
  exact ensures_modify h

variable {o : Option Slot}

@[simp] theorem set_slot_self : (b.set_slot s o).slots s = o := if_pos rfl

theorem set_slot_of_ne {t : SlotId} (h : t ≠ s) : (b.set_slot s o).slots t = b.slots t :=
  if_neg h

/-- Nothing is registered for the slot. -/
def Idle (b : Objects) (s : SlotId) : Prop := ∀ x, b.slots s = some x → ∀ t q, ¬ x.At t q

theorem registry_set_slot (h : Idle b s) (ho : ∀ x, o = some x → ∀ t q, ¬ x.At t q) :
    registry (b.set_slot s o) = registry b := by
  funext s' t q
  unfold registry
  by_cases hs : s' = s
  · subst hs
    rw [set_slot_self]
    exact propext (iff_of_false (fun ⟨x, hx, hat⟩ => ho x hx t q hat) fun ⟨x, hx, hat⟩ => h x hx t q hat)
  · rw [set_slot_of_ne hs]

theorem owned_set_slot (h : Idle b s) (ho : ∀ x, o = some x → ∀ t q, ¬ x.At t q) :
    Owned (b.set_slot s o) = Owned b := by
  funext k m
  refine propext (exists_congr fun s' => ?_)
  by_cases hs : s' = s
  · subst hs
    rw [set_slot_self]
    refine iff_of_false ?_ ?_
    · rintro ⟨x, hx, path, _, _, _, hat, _⟩
      exact ho x hx _ _ hat
    · rintro ⟨x, hx, path, _, _, _, hat, _⟩
      exact h x hx _ _ hat
  · rw [set_slot_of_ne hs]

/-- A slot changes that nothing is registered for. -/
theorem Placed.set_slot (h : Placed b above) (hidle : Idle b s)
    (ho : ∀ x, o = some x → ∀ t q, ¬ x.At t q) (hnew : s < b.next_slot) :
    Placed (b.set_slot s o) above := by
  refine ⟨?_, ?_, ?_, fun t ht => ?_⟩
  · rw [registry_set_slot hidle ho]
    exact h.tree.congr rfl
  · rw [registry_set_slot hidle ho]
    exact h.nodes
  · rw [registry_set_slot hidle ho]
    exact h.slash
  · have hts : t ≠ s := fun heq => Nat.lt_irrefl s (Nat.lt_of_lt_of_le hnew (heq ▸ ht))
    rw [set_slot_of_ne hts]
    exact h.fresh t ht

theorem Growing.set_slot (h : Growing b above) (hidle : Idle b s)
    (ho : ∀ x, o = some x → ∀ t q, ¬ x.At t q) (hnew : s < b.next_slot) :
    Growing (b.set_slot s o) above := by
  refine ⟨h.toPlaced.set_slot hidle ho hnew, ?_⟩
  rw [owned_set_slot hidle ho]
  exact ⟨h.tables.members, h.tables.keys⟩

theorem Placed.lt (h : Placed b above) (hx : b.slots s = some x) : s < b.next_slot := by
  by_contra hge
  rw [h.fresh s (Nat.le_of_not_lt hge)] at hx
  cases hx

/-- A slot that is nowhere yet. -/
theorem idle_of_node (hx : b.slots s = some x) (hnode : x.node = none) : Idle b s := by
  intro y hy t q hat
  obtain rfl := Option.some.inj (hx.symm.trans hy)
  rw [hat.2.2] at hnode
  cases hnode

theorem not_at_of_node (hnode : x.node = none) (t : BusSlotType) (q : Path) : ¬ x.At t q := by
  rintro ⟨_, _, hq⟩
  rw [hnode] at hq
  cases hq

/-- The slot a call has allocated. -/
def Slot.new (type : BusSlotType) (floating : Bool) : Slot :=
  ⟨type, 1, floating, true, false, none, none, none⟩

theorem Growing.slot_allocate (h : Growing b above) (type : BusSlotType) (floating : Bool) :
    Ensures (bus_slot_allocate type floating) b
      (fun s b' => Growing b' above ∧ b'.slots s = some (Slot.new type floating)) (Growing · above) := by
  have hsame : ∀ k, Growing { b with memory := k } above := fun k => h.congr ⟨rfl, ⟨rfl, rfl, rfl⟩⟩
  refine ensures_bind (R := fun _ b' => ∃ k, b' = { b with memory := k })
    (ensures_alloc (fun _ => ⟨_, rfl⟩) fun _ => h) ?_
  rintro _ _ ⟨k, rfl⟩
  refine ensures_get_bind (ensures_modify_bind (ensures_pure ⟨?_, set_slot_self⟩))
  -- the counter is ahead of the slot first
  have hahead : Growing { b with memory := k, next_slot := b.next_slot + 1 } above := by
    have hk := hsame k
    exact ⟨⟨hk.tree.congr rfl, hk.nodes, hk.slash, fun t ht => hk.fresh t (Nat.le_of_succ_le ht)⟩,
      ⟨hk.tables.members, hk.tables.keys⟩⟩
  have hidle : Idle { b with memory := k, next_slot := b.next_slot + 1 } b.next_slot := by
    intro y hy
    exact absurd ((h.fresh _ (Nat.le_refl _)).symm.trans hy) (by simp)
  refine (hahead.set_slot hidle (o := some (Slot.new type floating)) ?_ (Nat.lt_succ_self _)).congr
    ⟨rfl, ⟨rfl, rfl, rfl⟩⟩
  rintro y hy
  cases hy
  exact not_at_of_node rfl

theorem Slash.pos (h : Slash path) : 0 < path.length :=
  length_pos_of_mem (mem_of_mem_head? h)

/-! ## Section 3: Registering a slot -/

/-- A slot is put into a list of the node of a path. -/
theorem ensures_attach {f : List SlotId → List SlotId} {g : Slot → Slot}
    (h : Placed b (paths.Above · path)) (hslash : Slash path) (hx : b.slots s = some x)
    (hnode : x.node = none) (hbus : x.bus = true)
    (hg : ∀ y : Slot, (g y).bus = y.bus ∧ (g y).type = y.type ∧ (g y).node = some path)
    (hf : ∀ l, s ∉ l → (∀ t, t ∈ f l ↔ t = s ∨ t ∈ l) ∧ (l.Nodup → (f l).Nodup))
    (htables : Tables b fun k m => Owned b k m ∨ (g x).Owns s k m) :
    Ensures (do
      update_slot s g
      update_node path fun n => n.set_list x.type (f (n.list x.type))
      modify fun b => { b with nodes_modified := true }
      pure s) b (fun _ => Good) E := by
  obtain ⟨hgbus, hgtype, hgnode⟩ := hg x
  have hat : ∀ t q, (g x).At t q ↔ t = x.type ∧ q = path := by
    unfold Slot.At
    rw [hgbus, hgtype, hgnode, hbus]
    simp [eq_comm]
  have hidle := idle_of_node hx hnode
  -- what is registered then
  have hreg : ∀ s' t q, registry (b.set_slot s (some (g x))) s' t q ↔
      registry b s' t q ∨ s' = s ∧ t = x.type ∧ q = path := by
    intro s' t q
    unfold registry
    by_cases hs : s' = s
    · subst hs
      rw [set_slot_self]
      constructor
      · rintro ⟨y, hy, hyat⟩
        cases hy
        exact .inr ⟨rfl, (hat t q).mp hyat⟩
      · rintro (⟨y, hy, hyat⟩ | ⟨_, htq⟩)
        · exact absurd hyat (hidle y hy t q)
        · exact ⟨g x, rfl, (hat t q).mpr htq⟩
    · rw [set_slot_of_ne hs]
      simp [hs]
  refine ensures_bind (R := fun _ b' => b' = b.set_slot s (some (g x))) (ensures_update_slot hx rfl) ?_
  rintro _ _ rfl
  obtain ⟨n, hn⟩ := Option.isSome_iff_exists.mp ((h.nodes path).mpr (.inr .self))
  have hmem : s ∉ n.list x.type := by
    rw [h.tree.list path n x.type s hn]
    rintro ⟨y, hy, hyat⟩
    exact hidle y hy _ _ hyat
  obtain ⟨hfmem, hfnodup⟩ := hf _ hmem
  refine ensures_bind (R := fun _ b' => b' = (b.set_slot s (some (g x))).set_node path
    (some (n.set_list x.type (f (n.list x.type))))) (ensures_update_node hn rfl) ?_
  rintro _ _ rfl
  have htree : Tree ((b.set_slot s (some (g x))).set_node path
      (some (n.set_list x.type (f (n.list x.type))))) (registry (b.set_slot s (some (g x)))) := by
    have hsame : Tree (b.set_slot s (some (g x))) (registry b) := h.tree.congr rfl
    refine hsame.set_list hn (fun t => ?_) (hfnodup (h.tree.list_nodup path n _ hn)) fun s' t q hne => ?_
    · rw [hfmem, hreg, h.tree.list path n x.type t hn]
      simp [or_comm]
    · rw [hreg]
      exact or_iff_left fun h => hne h.2
  have hcov : (registry (b.set_slot s (some (g x)))).At =
      fun r => (registry b).At r ∨ r = path := by
    funext r
    refine propext ⟨?_, ?_⟩
    · rintro ⟨s', t, hr⟩
      rcases (hreg s' t r).mp hr with hr | ⟨_, _, hr⟩
      · exact .inl ⟨s', t, hr⟩
      · exact .inr hr
    · rintro (⟨s', t, hr⟩ | rfl)
      · exact ⟨s', t, (hreg s' t r).mpr (.inl hr)⟩
      · exact ⟨s, x.type, (hreg s x.type r).mpr (.inr ⟨rfl, rfl, rfl⟩)⟩
  refine ⟨⟨htree.congr rfl, fun q => ?_, fun q hq => ?_, fun t ht => ?_⟩, ⟨?_, htables.keys⟩⟩
  · have hold := set_list_isSome (b := b.set_slot s (some (g x))) (t := x.type)
      (l := f (n.list x.type)) hn q
    show (((b.set_slot s (some (g x))).set_node path _).nodes q).isSome ↔
      paths.Covers (registry (b.set_slot s (some (g x)))).At q ∨ False
    rw [hold, hcov, Forest.covers_insert, or_false]
    exact h.nodes q
  · have hq' : (registry (b.set_slot s (some (g x)))).At q := hq
    rw [hcov] at hq'
    rcases hq' with hq' | rfl
    · exact h.slash q hq'
    · exact hslash
  · have hts : t ≠ s := by
      rintro rfl
      exact Nat.lt_irrefl _ (Nat.lt_of_lt_of_le (h.lt hx) ht)
    exact (set_slot_of_ne hts).trans (h.fresh t ht)
  · intro k m
    refine (htables.members k m).trans ⟨?_, ?_⟩
    · rintro (⟨s', y, hy, hown⟩ | hown)
      · refine ⟨s', y, ?_, hown⟩
        have hs : s' ≠ s := by
          rintro rfl
          obtain ⟨_, _, _, _, hyat, _⟩ := hown
          exact hidle y hy _ _ hyat
        exact (set_slot_of_ne hs).trans hy
      · exact ⟨s, g x, set_slot_self, hown⟩
    · rintro ⟨s', y, hy, hown⟩
      by_cases hs : s' = s
      · subst hs
        obtain rfl := Option.some.inj (set_slot_self.symm.trans hy)
        exact .inr hown
      · exact .inl ⟨s', y, (set_slot_of_ne hs).symm.trans hy, hown⟩

variable {k : MemberKind} {m : BusVTableMember}

/-- What is no vtable has no members. -/
theorem not_owns_of_vtable (hv : x.vtable = none) : ¬ x.Owns s k m := by
  rintro ⟨_, _, vtable, _, _, _, hvt, _⟩
  rw [hv] at hvt
  cases hvt

theorem Tables.or_false {extra : MemberKind → BusVTableMember → Prop} (h : Tables b own)
    (hextra : ∀ k m, ¬ extra k m) : Tables b fun k m => own k m ∨ extra k m :=
  ⟨fun k m => (h.members k m).trans (or_iff_left (hextra k m)).symm, h.keys⟩

/-- A slot at the front of a list of its node. -/
theorem good_add_node_slot (h : Good b) (hslash : Slash path)
    (hclean : AllOrNone b (b.missing path)) (type : BusSlotType) (floating is_fallback : Bool) :
    Ensures (add_node_slot type floating is_fallback path) b (fun _ => Good) Good := by
  refine ensures_bind (h.allocate hslash hclean) fun _ b1 h1 => ?_
  refine ensures_cleanup (F := (Growing · (paths.Above · path))) ?_ fun b2 h2 => h2.gc hslash.pos
  refine ensures_bind (h1.slot_allocate type floating) ?_
  rintro s b2 ⟨h2, hx⟩
  refine ensures_attach (x := Slot.new type floating) (f := (s :: ·)) h2.toPlaced hslash hx rfl rfl
    (fun y => ⟨rfl, rfl, rfl⟩) (fun l hs => ⟨fun t => mem_cons, fun hl =>
    nodup_cons.mpr ⟨hs, hl⟩⟩) ?_
  exact h2.tables.or_false fun k m => not_owns_of_vtable rfl

/-! ## Section 4: Unregistering a slot -/

/-- The members of a table but for those with the key of an element of a vtable. -/
theorem ensures_remove_members {interface : List UInt8} (entries : List VtableEntry) :
    ∀ b : Objects,
    Ensures (entries.forM (remove_member path interface)) b
      (fun _ b' => (∀ k, b'.members k = (b.members k).filter fun m =>
        !entries.any fun v => v.kind == some k && m.key == (path, interface, v.member)) ∧
        b'.nodes = b.nodes ∧ b'.slots = b.slots ∧ b'.next_slot = b.next_slot) E := by
  induction entries with
  | nil =>
    intro b
    refine ensures_pure ⟨fun k => ?_, rfl, rfl, rfl⟩
    simp
  | cons v entries ih =>
    intro b
    refine ensures_bind (R := fun _ b' => (∀ k, b'.members k = (b.members k).filter fun m =>
      !(v.kind == some k && m.key == (path, interface, v.member))) ∧
      b'.nodes = b.nodes ∧ b'.slots = b.slots ∧ b'.next_slot = b.next_slot) ?_ ?_
    · unfold remove_member
      cases hk : v.kind with
      | none =>
        refine ensures_pure ⟨fun k => ?_, rfl, rfl, rfl⟩
        simp
      | some k =>
        refine ensures_modify ⟨fun l => ?_, rfl, rfl, rfl⟩
        unfold set_members
        dsimp only
        split
        · next hl =>
          subst hl
          simp [bne]
        · next hl =>
          have hne : (some k == some l) = false :=
            beq_eq_false_iff_ne.mpr fun heq => hl (Option.some.inj heq).symm
          refine (filter_eq_self.mpr fun m _ => ?_).symm
          rw [hne, Bool.false_and, Bool.not_false]
    · rintro _ b1 ⟨hm, hn, hs, hnext⟩
      refine ensures_mono (ih b1) ?_ fun _ h => h
      rintro _ b2 ⟨hm2, hn2, hs2, hnext2⟩
      refine ⟨fun k => ?_, hn2.trans hn, hs2.trans hs, hnext2.trans hnext⟩
      rw [hm2, hm, filter_filter]
      congr 1
      funext m
      rw [any_cons, Bool.not_or, Bool.and_comm]

/-- The tables without the members of a slot. -/
def OwnedBut (b : Objects) (s : SlotId) (k : MemberKind) (m : BusVTableMember) : Prop :=
  ∃ s' x, s' ≠ s ∧ b.slots s' = some x ∧ x.Owns s' k m

/-- A member names the slot it belongs to. -/
theorem Slot.Owns.parent (h : x.Owns s k m) : m.parent = s := by
  obtain ⟨_, _, _, _, _, _, _, _, _, rfl⟩ := h
  rfl

theorem ownedBut_iff : OwnedBut b s k m ↔ Owned b k m ∧ m.parent ≠ s := by
  constructor
  · rintro ⟨s', y, hs, hy, hown⟩
    exact ⟨⟨s', y, hy, hown⟩, fun heq => hs (hown.parent.symm.trans heq)⟩
  · rintro ⟨⟨s', y, hy, hown⟩, hne⟩
    exact ⟨s', y, fun heq => hne (hown.parent.trans heq), hy, hown⟩

/-- What is registered without a slot. -/
def registry_but (b : Objects) (s : SlotId) : Registry := fun s' t q => registry b s' t q ∧ s' ≠ s

theorem Tables.filter {own' : MemberKind → BusVTableMember → Prop}
    {p : MemberKind → BusVTableMember → Bool} (h : Tables b own)
    (hm : ∀ k, b'.members k = (b.members k).filter (p k))
    (hown : ∀ k m, own' k m ↔ own k m ∧ p k m = true) : Tables b' own' := by
  constructor
  · intro k m
    rw [hm, mem_filter, h.members, hown]
  · intro k
    rw [hm]
    exact (h.keys k).sublist ((filter_sublist).map _)

/-- A key belongs to one member. -/
theorem Tables.eq_of_key {m' : BusVTableMember} (h : Tables b own) (hm : own k m) (hm' : own k m')
    (hkey : m.key = m'.key) : m = m' :=
  inj_on_of_nodup_map (h.keys k) ((h.members k m).mpr hm) ((h.members k m').mpr hm') hkey

/-- A slot that is not a vtable, or nowhere, has no members. -/
theorem ownedBut_of_not_owns (hx : b.slots s = some x) (hnot : ∀ k m, ¬ x.Owns s k m)
    (k : MemberKind) (m : BusVTableMember) : OwnedBut b s k m ↔ Owned b k m := by
  constructor
  · rintro ⟨s', y, _, hy, hown⟩
    exact ⟨s', y, hy, hown⟩
  · rintro ⟨s', y, hy, hown⟩
    refine ⟨s', y, ?_, hy, hown⟩
    rintro rfl
    obtain rfl := Option.some.inj (hx.symm.trans hy)
    exact hnot k m hown

/-- The members of a vtable are taken out of the tables. -/
theorem ensures_vtable_disconnect (h : Tables b (Owned b)) (hx : b.slots s = some x)
    (hbus : x.bus = true) (hty : x.type = .node_vtable) :
    Ensures (vtable_disconnect s x) b
      (fun _ b' => Tables b' (OwnedBut b s) ∧ b'.nodes = b.nodes ∧ b'.next_slot = b.next_slot ∧
        b'.slots = (b.set_slot s (some { x with interface := none })).slots) E := by
  refine ensures_bind (R := fun _ b' => Tables b' (OwnedBut b s) ∧ b'.nodes = b.nodes ∧
    b'.slots = b.slots ∧ b'.next_slot = b.next_slot) ?_ ?_
  · have hnone : (∀ k m, ¬ x.Owns s k m) → Tables b (OwnedBut b s) := fun hnot =>
      ⟨fun k m => (h.members k m).trans (ownedBut_of_not_owns hx hnot k m).symm, h.keys⟩
    cases hpath : x.node with
    | none =>
      refine ensures_pure ⟨hnone fun k m => ?_, rfl, rfl, rfl⟩
      rintro ⟨_, _, _, _, hat, _⟩
      exact not_at_of_node hpath _ _ hat
    | some path =>
      cases hint : x.interface with
      | none =>
        refine ensures_pure ⟨hnone fun k m => ?_, rfl, rfl, rfl⟩
        rintro ⟨_, interface, _, _, _, hi, _⟩
        rw [hint] at hi
        cases hi
      | some interface =>
        cases hvt : x.vtable with
        | none => exact ensures_pure ⟨hnone fun k m => not_owns_of_vtable hvt, rfl, rfl, rfl⟩
        | some vtable =>
          refine ensures_mono (ensures_remove_members vtable.entries b) ?_ fun _ h => h
          rintro _ b' ⟨hm, hn, hs, hnext⟩
          refine ⟨h.filter hm fun k m => ?_, hn, hs, hnext⟩
          rw [ownedBut_iff]
          refine and_congr_right fun hown => ?_
          have howns : ∀ v ∈ vtable.entries, v.kind = some k →
              Owned b k ⟨s, path, interface, v.member, v⟩ := fun v hv hk =>
            ⟨s, x, hx, path, interface, vtable, v, ⟨hbus, hty, hpath⟩, hint, hvt, hv, hk, rfl⟩
          rw [Bool.not_eq_true', any_eq_false]
          constructor
          · -- a member with a key of the vtable is a member of it
            intro hne v hv heq
            rw [Bool.and_eq_true, beq_iff_eq, beq_iff_eq] at heq
            obtain rfl := h.eq_of_key hown (howns v hv heq.1) heq.2
            exact hne rfl
          · rintro hnot rfl
            obtain ⟨s', y, hy, hyown⟩ := hown
            obtain rfl := hyown.parent
            obtain rfl := Option.some.inj (hx.symm.trans hy)
            obtain ⟨path', interface', vtable', v, hat, hint', hvt', hv, hk, hm⟩ := hyown
            obtain rfl := Option.some.inj (hpath.symm.trans hat.2.2)
            obtain rfl := Option.some.inj (hint.symm.trans hint')
            obtain rfl := Option.some.inj (hvt.symm.trans hvt')
            refine hnot v hv ?_
            rw [hk, hm]
            simp [BusVTableMember.key]
  · rintro _ b1 ⟨ht1, hn1, hs1, hnext1⟩
    have hx1 : b1.slots s = some x := by rw [hs1, hx]
    refine ensures_update_slot hx1 ⟨⟨ht1.members, ht1.keys⟩, hn1, hnext1, ?_⟩
    unfold set_slot
    rw [hs1]

/-- Where a slot is taken out: nothing is registered for it any more. -/
structure Detached (b : Objects) (s : SlotId) (b' : Objects) : Prop where
  tree : Tree b' (registry_but b s)
  nodes : Exact b' (registry_but b s)
  tables : Tables b' (OwnedBut b s)
  next_slot : b'.next_slot = b.next_slot
  slots : ∀ t, t ≠ s → b'.slots t = b.slots t
  self : ∃ y, b'.slots s = some y

/-- What is registered without a slot that is not. -/
theorem registry_but_of_idle (h : Idle b s) : registry_but b s = registry b := by
  funext s' t q
  refine propext ⟨And.left, fun hr => ⟨hr, ?_⟩⟩
  rintro rfl
  obtain ⟨y, hy, hat⟩ := hr
  exact h y hy t q hat

/-- Once the slot does not belong to its bus, it is the others that are
    registered. -/
theorem Detached.good (h : Detached b s b') (hb : Good b) (hs : s < b.next_slot)
    (ho : ∀ x, o = some x → x.bus = false) : Good (b'.set_slot s o) := by
  have hnot : ∀ y t q, o = some y → ¬ y.At t q := by
    rintro y t q hy ⟨hbus, _⟩
    rw [ho y hy] at hbus
    cases hbus
  have hother : ∀ t, t ≠ s → (b'.set_slot s o).slots t = b.slots t := fun t ht =>
    (set_slot_of_ne ht).trans (h.slots t ht)
  have hreg : registry (b'.set_slot s o) = registry_but b s := by
    funext s' t q
    unfold registry registry_but
    by_cases hs' : s' = s
    · subst hs'
      rw [set_slot_self]
      exact propext (iff_of_false (fun ⟨y, hy, hat⟩ => hnot y t q hy hat) fun h => h.2 rfl)
    · rw [hother s' hs']
      simp [hs', registry]
  have howned : Owned (b'.set_slot s o) = OwnedBut b s := by
    funext k m
    refine propext ⟨?_, ?_⟩
    · rintro ⟨s', y, hy, hown⟩
      have hs' : s' ≠ s := by
        rintro rfl
        rw [set_slot_self] at hy
        obtain ⟨_, _, _, _, hat, _⟩ := hown
        exact hnot y _ _ hy hat
      exact ⟨s', y, hs', (hother s' hs').symm.trans hy, hown⟩
    · rintro ⟨s', y, hs', hy, hown⟩
      exact ⟨s', y, (hother s' hs').trans hy, hown⟩
  refine ⟨⟨?_, ?_, ?_, fun t ht => ?_⟩, ?_⟩
  · rw [hreg]
    exact h.tree.congr rfl
  · rw [hreg]
    intro q
    rw [or_false]
    exact h.nodes q
  · rw [hreg]
    rintro q ⟨s', t, hr, _⟩
    exact hb.slash q ⟨s', t, hr⟩
  · have hts : t ≠ s := by
      rintro rfl
      have ht' : b'.next_slot ≤ t := ht
      rw [h.next_slot] at ht'
      exact Nat.lt_irrefl _ (Nat.lt_of_lt_of_le hs ht')
    rw [hother t hts]
    exact hb.fresh t (h.next_slot ▸ ht)
  · rw [howned]
    exact ⟨h.tables.members, h.tables.keys⟩

section
variable (h : Good b) (hx : b.slots s = some x)
include h hx

/-- A slot is taken out of the list of its node, and nodes that it was the last
    to keep are collected. -/
theorem ensures_detach {b₁ : Objects} (hat : x.At x.type path) (ht : Tables b₁ (OwnedBut b s))
    (hn : b₁.nodes = b.nodes) (hnext : b₁.next_slot = b.next_slot)
    (hslots : ∀ t, t ≠ s → b₁.slots t = b.slots t) (hself : b₁.slots s = some y) :
    Ensures (do
      update_node path fun n => n.set_list x.type ((n.list x.type).erase s)
      modify fun b => { b with nodes_modified := true }
      bus_node_gc path) b₁ (fun _ => Detached b s) E := by
  have hself' : ∀ t q, registry b s t q ↔ t = x.type ∧ q = path := by
    intro t q
    constructor
    · rintro ⟨y, hy, _, rfl, hq⟩
      obtain rfl := Option.some.inj (hx.symm.trans hy)
      exact ⟨rfl, Option.some.inj (hq.symm.trans hat.2.2)⟩
    · rintro ⟨rfl, rfl⟩
      exact ⟨x, hx, hat⟩
  obtain ⟨n, hnode⟩ := Option.isSome_iff_exists.mp
    (h.tree.reg_node s x.type path ((hself' _ _).mpr ⟨rfl, rfl⟩))
  have hnode1 : b₁.nodes path = some n := by rw [hn, hnode]
  have htree : Tree (b₁.set_node path (some (n.set_list x.type ((n.list x.type).erase s))))
      (registry_but b s) := by
    have hnodup := h.tree.list_nodup path n x.type hnode
    refine (h.tree.congr hn).set_list hnode1 (fun s' => ?_) (hnodup.erase s) fun s' t q hne => ?_
    · rw [hnodup.mem_erase_iff, h.tree.list path n x.type s' hnode, and_comm]
      rfl
    · refine ⟨And.left, fun hr => ⟨hr, ?_⟩⟩
      rintro rfl
      exact hne ((hself' t q).mp hr)
  -- what the table had, and has still
  have hcov : ∀ q, (b.nodes q).isSome ↔
      paths.Covers (registry_but b s).At q ∨ paths.Above q path := by
    have hcong : (registry b).At = fun r => (registry_but b s).At r ∨ r = path := by
      funext r
      refine propext ⟨?_, ?_⟩
      · rintro ⟨s', t, hr⟩
        by_cases hs : s' = s
        · subst hs
          exact .inr ((hself' t r).mp hr).2
        · exact .inl ⟨s', t, hr, hs⟩
      · rintro (⟨s', t, hr, _⟩ | rfl)
        · exact ⟨s', t, hr⟩
        · exact ⟨s, x.type, (hself' _ _).mpr ⟨rfl, rfl⟩⟩
    intro q
    rw [h.nodes, or_false, hcong, Forest.covers_insert]
  refine ensures_bind (R := fun _ b2 => b2 = b₁.set_node path
    (some (n.set_list x.type ((n.list x.type).erase s)))) (ensures_update_node hnode1 rfl) ?_
  rintro _ _ rfl
  refine ensures_modify_bind (ensures_mono (ensures_gc
    (h.slash path ⟨s, x.type, (hself' _ _).mpr ⟨rfl, rfl⟩⟩).pos (htree.congr rfl) fun q => ?_) ?_
    fun _ h => h)
  · rw [← hcov q]
    refine (set_list_isSome hnode1 q).trans ?_
    rw [hn]
  · rintro _ b2 ⟨htree2, hexact, hframe⟩
    refine ⟨htree2, hexact, ht.of_frame ⟨hframe.slots, hframe.next_slot, hframe.members⟩, ?_, ?_, ?_⟩
    · exact hframe.next_slot.trans hnext
    · intro t hts
      rw [hframe.slots]
      exact hslots t hts
    · rw [hframe.slots]
      exact ⟨y, hself⟩

theorem ensures_slot_disconnect_type (hbus : x.bus = true) :
    Ensures (slot_disconnect_type s) b (fun _ => Detached b s) E := by
  refine ensures_bind (R := fun y b' => x = y ∧ b = b') (ensures_slot hx ⟨rfl, rfl⟩) ?_
  rintro _ _ ⟨rfl, rfl⟩
  refine ensures_bind (R := fun _ b1 => Tables b1 (OwnedBut b s) ∧ b1.nodes = b.nodes ∧
    b1.next_slot = b.next_slot ∧ (∀ t, t ≠ s → b1.slots t = b.slots t) ∧ ∃ y, b1.slots s = some y)
    (ensures_when (fun hty => ?_) fun hty => ?_) ?_
  · refine ensures_mono (ensures_vtable_disconnect h.tables hx hbus (beq_iff_eq.mp hty)) ?_ fun _ h => h
    rintro _ b1 ⟨ht1, hn1, hnext1, hs1⟩
    rw [hs1]
    exact ⟨ht1, hn1, hnext1, fun t hts => set_slot_of_ne hts, _, set_slot_self⟩
  · have hnot : ∀ k m, ¬ x.Owns s k m := by
      rintro k m ⟨_, _, _, _, hat, _⟩
      rw [hat.2.1] at hty
      cases hty
    exact ⟨⟨fun k m => (h.tables.members k m).trans (ownedBut_of_not_owns hx hnot k m).symm,
      h.tables.keys⟩, rfl, rfl, fun _ _ => rfl, x, hx⟩
  · rintro _ b1 ⟨ht1, hn1, hnext1, hs1, y, hy⟩
    cases hpath : x.node with
    | some path => exact ensures_detach h hx ⟨hbus, rfl, hpath⟩ ht1 hn1 hnext1 hs1 hy
    | none =>
      have hbut := registry_but_of_idle (idle_of_node hx hpath)
      refine ensures_pure ⟨?_, fun q => ?_, ht1, hnext1, hs1, y, hy⟩
      · rw [hbut]
        exact h.tree.congr hn1
      · rw [hbut, hn1, h.nodes, or_false]

/-- Taking a slot out leaves everything consistent, with nothing registered for
    the slot. -/
theorem ensures_slot_disconnect :
    Ensures (slot_disconnect s) b (fun _ b' => Good b' ∧ ∃ y, b'.slots s = some y ∧ y.bus = false) E := by
  refine ensures_bind (R := fun y b' => x = y ∧ b = b') (ensures_slot hx ⟨rfl, rfl⟩) ?_
  rintro _ _ ⟨rfl, rfl⟩
  refine ensures_when (fun hbus => ?_) fun hbus => ⟨h, x, hx, hbus⟩
  refine ensures_bind (ensures_slot_disconnect_type h hx hbus) fun _ b1 hdet => ?_
  obtain ⟨y, hy⟩ := hdet.self
  refine ensures_update_slot hy ⟨hdet.good h (h.lt hx) fun z hz => ?_, _, set_slot_self, rfl⟩
  cases hz
  rfl

/-- How many references a slot has does not matter. -/
theorem Good.set_refs (k : Nat) : Good (b.set_slot s (some { x with n_ref := k })) := by
  have hreg : registry (b.set_slot s (some { x with n_ref := k })) = registry b := by
    funext s' t q
    unfold registry
    by_cases hs : s' = s
    · subst hs
      simp [hx, Slot.At]
    · rw [set_slot_of_ne hs]
  have howned : Owned (b.set_slot s (some { x with n_ref := k })) = Owned b := by
    funext l m
    refine propext (exists_congr fun s' => ?_)
    by_cases hs : s' = s
    · subst hs
      simp [hx, Slot.Owns, Slot.At]
    · rw [set_slot_of_ne hs]
  refine ⟨⟨?_, ?_, ?_, fun t ht => ?_⟩, ?_⟩
  · rw [hreg]
    exact h.tree.congr rfl
  · rw [hreg]
    exact h.nodes
  · rw [hreg]
    exact h.slash
  · have hts : t ≠ s := by
      rintro rfl
      exact Nat.lt_irrefl _ (Nat.lt_of_lt_of_le (h.lt hx) ht)
    exact (set_slot_of_ne hts).trans (h.fresh t ht)
  · rw [howned]
    exact ⟨h.tables.members, h.tables.keys⟩

theorem ensures_free : Ensures (bus_slot_free s) b (fun _ => Good) E := by
  refine ensures_bind (ensures_slot_disconnect h hx) ?_
  rintro _ b1 ⟨h1, y, hy, hbus⟩
  refine ensures_modify (h1.set_slot ?_ (fun z hz => by cases hz) (h1.lt hy))
  rintro z hz t q ⟨hzbus, _⟩
  obtain rfl := Option.some.inj (hy.symm.trans hz)
  rw [hbus] at hzbus
  cases hzbus

end

/-- A slot that has been freed is not looked at. -/
theorem holds_slot_bind {α : Type} {Q : α → Objects → Prop} {f : Slot → Call Objects α}
    (h : ∀ x, b.slots s = some x → Holds (f x) b Q E) : Holds (slot s >>= f) b Q E := by
  refine holds_bind (R := fun x b' => b.slots s = some x ∧ b = b') (holds_get_bind ?_) ?_
  · cases hx : b.slots s with
    | none => exact holds_abort
    | some x => exact holds_pure ⟨rfl, rfl⟩
  · rintro x _ ⟨hx, rfl⟩
    exact h x hx

theorem keeps_unref (s : SlotId) : Keeps Good (sd_bus_slot_unref s) := by
  intro b h
  refine holds_slot_bind fun x hx => holds_assert_bind fun _ => ?_
  refine holds_bind (ensures_update_slot (Q := fun _ b' => Good b' ∧ ∃ y, b'.slots s = some y) hx
    ⟨h.set_refs hx _, _, set_slot_self⟩).holds ?_
  rintro _ b1 ⟨h1, y, hy⟩
  exact holds_when (fun _ => (ensures_free h1 hy).holds) fun _ => h1

theorem keeps_ref (s : SlotId) : Keeps Good (sd_bus_slot_ref s) := by
  intro b h
  refine holds_slot_bind fun x hx => holds_assert_bind fun _ => ?_
  exact (ensures_update_slot hx (h.set_refs hx _)).holds

theorem keeps_disconnect (s : SlotId) : Keeps Good (bus_slot_disconnect s) := by
  intro b h
  refine holds_slot_bind fun x hx => holds_when (fun _ => ?_) fun _ => h
  refine holds_bind (ensures_slot_disconnect h hx).holds ?_
  rintro _ b1 ⟨h1, _⟩
  exact holds_when (fun _ => keeps_unref s b1 h1) fun _ => h1

/-! ## Section 5: Adding a vtable -/

/-- The nodes and the slots are the same. -/
structure Quiet (b b' : Objects) : Prop where
  nodes : b'.nodes = b.nodes
  slots : b'.slots = b.slots
  next_slot : b'.next_slot = b.next_slot

theorem Quiet.refl (b : Objects) : Quiet b b := ⟨rfl, rfl, rfl⟩

theorem Quiet.trans {b'' : Objects} (h : Quiet b b') (h' : Quiet b' b'') : Quiet b b'' :=
  ⟨h'.nodes.trans h.nodes, h'.slots.trans h.slots, h'.next_slot.trans h.next_slot⟩

theorem Quiet.registry (h : Quiet b b') : registry b' = registry b := by
  unfold Objects.registry
  rw [h.slots]

theorem Quiet.owned (h : Quiet b b') : Owned b' = Owned b := by
  unfold Owned
  rw [h.slots]

theorem Placed.of_quiet (h : Placed b above) (hq : Quiet b b') : Placed b' above := by
  refine ⟨?_, ?_, ?_, ?_⟩
  · rw [hq.registry]
    exact h.tree.congr hq.nodes
  · rw [hq.registry, hq.nodes]
    exact h.nodes
  · rw [hq.registry]
    exact h.slash
  · rw [hq.slots, hq.next_slot]
    exact h.fresh

theorem Growing.of_quiet (h : Growing b above) (hq : Quiet b b') (ht : Tables b' (Owned b)) :
    Growing b' above := by
  refine ⟨h.toPlaced.of_quiet hq, ?_⟩
  rw [hq.owned]
  exact ht

section vtable
variable {interface : List UInt8} {vtable : Vtable} {own own' : MemberKind → BusVTableMember → Prop}

/-- The members for these elements of a vtable. -/
def Put (s : SlotId) (path : Path) (interface : List UInt8) (entries : List VtableEntry)
    (k : MemberKind) (m : BusVTableMember) : Prop :=
  ∃ v, v ∈ entries ∧ v.kind = some k ∧ m = ⟨s, path, interface, v.member, v⟩

theorem not_put_nil (k : MemberKind) (m : BusVTableMember) : ¬ Put s path interface [] k m := by
  rintro ⟨_, hv, _⟩
  cases hv

variable {entries : List VtableEntry} {v : VtableEntry}

theorem put_cons (k : MemberKind) (m : BusVTableMember) : Put s path interface (v :: entries) k m ↔
      (v.kind = some k ∧ m = ⟨s, path, interface, v.member, v⟩) ∨ Put s path interface entries k m := by
  unfold Put
  simp

theorem Tables.congr (h : Tables b own) (hown : ∀ k m, own k m ↔ own' k m) : Tables b own' :=
  ⟨fun k m => (h.members k m).trans (hown k m), h.keys⟩

/-- Only the tables matter. -/
theorem Tables.of_members (h : Tables b own) (hm : b'.members = b.members) : Tables b' own := by
  constructor
  all_goals rw [hm]
  exacts [h.members, h.keys]

/-- A member goes into its table, unless one with its key is there. -/
theorem ensures_set_put (ht : Tables b own) (k : MemberKind) (m : BusVTableMember) :
    Ensures (set_put k m) b
      (fun _ b' => Quiet b b' ∧ Tables b' fun l m' => own l m' ∨ (some k = some l ∧ m' = m))
      (fun b' => Quiet b b' ∧ Tables b' own) := by
  have hquiet : ∀ j, Quiet b { b with memory := j } := fun _ => ⟨rfl, rfl, rfl⟩
  have hsame : ∀ j, Tables { b with memory := j } own := fun _ => ht.of_members rfl
  refine ensures_bind (R := fun _ b' => ∃ j, b' = { b with memory := j })
    (ensures_alloc (fun _ => ⟨_, rfl⟩) fun _ => ⟨Quiet.refl b, ht⟩) ?_
  rintro _ _ ⟨j, rfl⟩
  refine ensures_get_bind (ensures_check_bind ⟨hquiet j, hsame j⟩ fun hnew => ?_)
  refine ensures_bind (R := fun _ b' => ∃ j, b' = { b with memory := j })
    (ensures_alloc (fun _ => ⟨_, rfl⟩) fun _ => ⟨hquiet j, hsame j⟩) ?_
  rintro _ _ ⟨j, rfl⟩
  refine ensures_modify ⟨⟨rfl, rfl, rfl⟩, fun l m' => ?_, fun l => ?_⟩
  · unfold set_members
    dsimp only
    split
    · next hl =>
      subst hl
      rw [mem_cons, ht.members, or_comm]
      simp
    · next hl =>
      rw [ht.members]
      simp [Ne.symm hl]
  · unfold set_members
    dsimp only
    split
    · next hl =>
      subst hl
      refine nodup_cons.mpr ⟨fun hmem => ?_, ht.keys l⟩
      obtain ⟨m', hm', hkey⟩ := mem_map.mp hmem
      have hany : ((b.members l).any fun x => x.key == m.key) = true :=
        any_eq_true.mpr ⟨m', hm', beq_iff_eq.mpr hkey⟩
      rw [Bool.not_eq_true'] at hnew
      exact absurd (hany.symm.trans hnew) (by simp)
    · exact ht.keys l

/-- A call puts the members for some elements into the tables; where it fails,
    those of some of them are there. -/
def AddsMembers (s : SlotId) (path : Path) (interface : List UInt8) (entries : List VtableEntry)
    (x : Call Objects PUnit) : Prop :=
  ∀ (b : Objects) (own : MemberKind → BusVTableMember → Prop), Tables b own →
    Ensures x b
      (fun _ b' => Quiet b b' ∧ Tables b' fun k m => own k m ∨ Put s path interface entries k m)
      (fun b' => Quiet b b' ∧ ∃ some_entries, (∀ v ∈ some_entries, v ∈ entries ∧ v.member ≠ []) ∧
        Tables b' fun k m => own k m ∨ Put s path interface some_entries k m)

theorem AddsMembers.fail (e : Errno) :
    AddsMembers s path interface entries (fail e) := fun b _ ht =>
  ensures_fail ⟨Quiet.refl b, [], fun _ hv => (not_mem_nil hv).elim, ht.or_false not_put_nil⟩

/-- An element without a member. -/
theorem AddsMembers.skip {x : Call Objects PUnit} (h : AddsMembers s path interface entries x)
    (hk : v.kind = none) : AddsMembers s path interface (v :: entries) x := by
  have hput : ∀ k m, Put s path interface (v :: entries) k m ↔ Put s path interface entries k m := by
    intro k m
    rw [put_cons, hk]
    simp
  intro b own ht
  refine ensures_mono (h b own ht) ?_ ?_
  · rintro _ b' ⟨hq, ht'⟩
    exact ⟨hq, ht'.congr fun k m => or_congr_right (hput k m).symm⟩
  · rintro b' ⟨hq, done, hdone, ht'⟩
    exact ⟨hq, done, fun v hv => ⟨mem_cons_of_mem _ (hdone v hv).1, (hdone v hv).2⟩, ht'⟩

/-- An element with one. -/
theorem AddsMembers.put {x : Call Objects PUnit} {k : MemberKind}
    (h : AddsMembers s path interface entries x) (hk : v.kind = some k) (hname : v.member ≠ []) :
    AddsMembers s path interface (v :: entries)
      (do set_put k ⟨s, path, interface, v.member, v⟩; x) := by
  intro b own ht
  have hassoc : ∀ (es : List VtableEntry) (l : MemberKind) (m : BusVTableMember),
      ((own l m ∨ (some k = some l ∧ m = ⟨s, path, interface, v.member, v⟩)) ∨
        Put s path interface es l m) ↔ (own l m ∨ Put s path interface (v :: es) l m) := by
    intro es l m
    rw [put_cons, hk, or_assoc]
  refine ensures_bind (ensures_mono (ensures_set_put ht k _) (fun _ _ h => h) ?_) ?_
  · rintro b' ⟨hq, ht'⟩
    exact ⟨hq, [], fun _ hv => (not_mem_nil hv).elim, ht'.or_false not_put_nil⟩
  · rintro _ b1 ⟨hq1, ht1⟩
    refine ensures_mono (h b1 _ ht1) ?_ ?_
    · rintro _ b' ⟨hq, ht'⟩
      exact ⟨hq1.trans hq, ht'.congr (hassoc entries)⟩
    · rintro b' ⟨hq, done, hdone, ht'⟩
      refine ⟨hq1.trans hq, v :: done, fun w hw => ?_, ht'.congr (hassoc done)⟩
      rcases mem_cons.mp hw with rfl | hw
      · exact ⟨mem_cons_self, hname⟩
      · exact ⟨mem_cons_of_mem _ (hdone w hw).1, (hdone w hw).2⟩

theorem member_ne_nil {member : List UInt8} (h : member_name_is_valid member = true) :
    member ≠ [] := by
  rintro rfl
  cases h

theorem of_method_is_valid {names rest : List (List UInt8)}
    (h : method_is_valid vtable v names = some rest) : member_name_is_valid v.member = true := by
  unfold method_is_valid at h
  split at h
  · cases h
  split at h
  · cases h
  split at h
  · next hvalid =>
    simp only [Bool.and_eq_true] at hvalid
    exact hvalid.1.1.1.1
  · cases h

theorem of_property_is_valid (h : property_is_valid v = true) :
    member_name_is_valid v.member = true := by
  unfold property_is_valid at h
  simp only [Bool.and_eq_true] at h
  exact h.1.1.1.1.1.1

/-- The elements of a vtable, one after the other. -/
theorem adds_members (entries : List VtableEntry) : ∀ names,
    AddsMembers s path interface entries (add_members s path interface vtable entries names) := by
  induction entries with
  | nil =>
    intro names b own ht
    exact ensures_pure ⟨Quiet.refl b, ht.or_false not_put_nil⟩
  | cons v entries ih =>
    intro names
    have hproperty : v.kind = some .property →
        AddsMembers s path interface (v :: entries) (do
          check (v.type != .writable_property || writable_is_valid v) .EINVAL
          check (property_is_valid v) .EINVAL
          set_put .property ⟨s, path, interface, v.member, v⟩
          add_members s path interface vtable entries names) := by
      intro hk b own ht
      have hfail : AddsMembers s path interface (v :: entries) (fail .EINVAL) := .fail _
      refine ensures_check_bind (hfail b own ht) fun _ =>
        ensures_check_bind (hfail b own ht) fun hvalid => ?_
      exact (ih names).put hk (member_ne_nil (of_property_is_valid hvalid)) b own ht
    unfold add_members
    cases hty : v.type with
    | method =>
      cases hvalid : method_is_valid vtable v names with
      | none => exact .fail .EINVAL
      | some rest =>
        refine (ih rest).put ?_ (member_ne_nil (of_method_is_valid hvalid))
        unfold VtableEntry.kind
        rw [hty]
    | property =>
      have h := hproperty (by unfold VtableEntry.kind; rw [hty])
      rw [hty] at h
      exact h
    | writable_property =>
      have h := hproperty (by unfold VtableEntry.kind; rw [hty])
      rw [hty] at h
      exact h
    | signal =>
      cases hvalid : signal_is_valid vtable v names with
      | none => exact .fail .EINVAL
      | some rest =>
        refine (ih rest).skip ?_
        unfold VtableEntry.kind
        rw [hty]
    | other => exact .fail .EINVAL

/-- The members that are removed for these elements where adding has failed. -/
def Undone (s : SlotId) (path : Path) (interface : List UInt8) (entries : List VtableEntry)
    (k : MemberKind) (m : BusVTableMember) : Prop :=
  m.parent = s ∧ ∃ v, v ∈ entries ∧ v.kind = some k ∧ v.member ≠ [] ∧
    m.key = (path, interface, v.member)

theorem undone_cons {k : MemberKind} {m : BusVTableMember} :
    Undone s path interface (v :: entries) k m ↔
      Undone s path interface [v] k m ∨ Undone s path interface entries k m := by
  unfold Undone
  simp [and_or_left]

variable {E : Objects → Prop}

theorem ensures_undo_member (ht : Tables b own) (v : VtableEntry) :
    Ensures (undo_member s path interface v) b (fun _ b' => Quiet b b' ∧
      Tables b' fun k m => own k m ∧ ¬ Undone s path interface [v] k m) E := by
  have hkeep : (∀ k m, own k m → ¬ Undone s path interface [v] k m) →
      Tables b fun k m => own k m ∧ ¬ Undone s path interface [v] k m := fun hnot =>
    ht.congr fun k m => (and_iff_left_of_imp (hnot k m)).symm
  refine ensures_get_bind ?_
  cases hk : v.kind with
  | none =>
    refine ensures_pure ⟨Quiet.refl b, hkeep ?_⟩
    rintro k m _ ⟨_, w, hw, hwk, _⟩
    obtain rfl := mem_singleton.mp hw
    rw [hk] at hwk
    cases hwk
  | some k =>
    refine ensures_when (fun hname => ?_) fun hname => ?_
    · have hne : v.member ≠ [] := by simpa using hname
      cases hfind : (b.members k).find? fun m => m.key == (path, interface, v.member) with
      | none =>
        refine ensures_pure ⟨Quiet.refl b, hkeep ?_⟩
        rintro l m hm ⟨_, w, hw, hwk, _, hkey⟩
        obtain rfl := mem_singleton.mp hw
        obtain rfl := Option.some.inj (hk.symm.trans hwk)
        exact find?_eq_none.mp hfind m ((ht.members k m).mpr hm) (beq_iff_eq.mpr hkey)
      | some x =>
        have hx := (ht.members k x).mp (mem_of_find?_eq_some hfind)
        have hxkey : x.key = (path, interface, v.member) := by simpa using find?_some hfind
        refine ensures_when (fun hparent => ?_) fun hparent => ?_
        · -- it is the only one with its key
          refine ensures_modify ⟨⟨rfl, rfl, rfl⟩, fun l m => ?_, fun l => ?_⟩
          · unfold set_members
            dsimp only
            split
            · next hl =>
              subst hl
              rw [mem_filter, ht.members]
              refine and_congr_right fun hm => ?_
              constructor
              · rintro hkey ⟨_, w, hw, _, _, hmkey⟩
                obtain rfl := mem_singleton.mp hw
                rw [hmkey] at hkey
                simp at hkey
              · intro hnot
                rw [bne_iff_ne]
                intro hmkey
                obtain rfl := ht.eq_of_key hm hx (hmkey.trans hxkey.symm)
                exact hnot ⟨beq_iff_eq.mp hparent, v, mem_singleton_self v, hk, hne, hmkey⟩
            · next hl =>
              rw [ht.members]
              refine (and_iff_left ?_).symm
              rintro ⟨_, w, hw, hwk, _⟩
              obtain rfl := mem_singleton.mp hw
              exact hl (Option.some.inj (hwk.symm.trans hk))
          · unfold set_members
            dsimp only
            split
            · next hl =>
              subst hl
              exact (ht.keys l).sublist (filter_sublist.map _)
            · exact ht.keys l
        · refine ⟨Quiet.refl b, hkeep ?_⟩
          rintro l m hm ⟨hmparent, w, hw, hwk, _, hkey⟩
          obtain rfl := mem_singleton.mp hw
          obtain rfl := Option.some.inj (hk.symm.trans hwk)
          obtain rfl := ht.eq_of_key hm hx (hkey.trans hxkey.symm)
          exact beq_eq_false_iff_ne.mp hparent hmparent
    · refine ⟨Quiet.refl b, hkeep ?_⟩
      rintro l m _ ⟨_, w, hw, _, hne, _⟩
      obtain rfl := mem_singleton.mp hw
      exact hne (by simpa using hname)

/-- What has been put into the tables is removed. -/
theorem ensures_undo (entries : List VtableEntry) : ∀ (b : Objects) own,
    Tables b own → Ensures (entries.forM (undo_member s path interface)) b (fun _ b' => Quiet b b' ∧
      Tables b' fun k m => own k m ∧ ¬ Undone s path interface entries k m) E := by
  induction entries with
  | nil =>
    intro b own ht
    refine ensures_pure ⟨Quiet.refl b, ht.congr fun k m => (and_iff_left ?_).symm⟩
    rintro ⟨_, _, hv, _⟩
    cases hv
  | cons v entries ih =>
    intro b own ht
    refine ensures_bind (ensures_undo_member ht v) ?_
    rintro _ b1 ⟨hq1, ht1⟩
    refine ensures_mono (ih b1 _ ht1) ?_ fun _ h => h
    rintro _ b' ⟨hq, ht'⟩
    refine ⟨hq1.trans hq, ht'.congr fun k m => ?_⟩
    rw [and_assoc, ← not_or, ← undone_cons]

/-- So is then all that a vtable has left in the tables that has not been
    registered. -/
theorem ensures_undo_put {some_entries : List VtableEntry} (hown : ∀ k m, own k m → m.parent ≠ s)
    (hsome : ∀ v ∈ some_entries, v ∈ entries ∧ v.member ≠ [])
    (ht : Tables b fun k m => own k m ∨ Put s path interface some_entries k m) :
    Ensures (entries.forM (undo_member s path interface)) b
      (fun _ b' => Quiet b b' ∧ Tables b' own) E := by
  refine ensures_mono (ensures_undo entries b _ ht) ?_ fun _ h => h
  rintro _ b' ⟨hq, ht'⟩
  refine ⟨hq, ht'.congr fun k m => ?_⟩
  constructor
  · rintro ⟨hm | ⟨v, hv, hk, rfl⟩, hnot⟩
    · exact hm
    · exact (hnot ⟨rfl, v, (hsome v hv).1, hk, (hsome v hv).2, rfl⟩).elim
  · exact fun hm => ⟨.inl hm, fun hundone => hown k m hm hundone.1⟩

/-! ### The whole of it -/

theorem list_insert_after_perm (after s : SlotId) (l : List SlotId) :
    (list_insert_after after s l).Perm (s :: l) := by
  induction l with
  | nil => exact .refl _
  | cons t l ih =>
    unfold list_insert_after
    split
    · exact .swap s t l
    · exact (ih.cons t).trans (.swap s t l)

theorem insert_vtable_perm (existing : Option SlotId) (s : SlotId) (l : List SlotId) :
    (insert_vtable existing s l).Perm (s :: l) := by
  unfold insert_vtable
  split
  · exact .refl _
  · exact list_insert_after_perm _ s l

theorem ensures_find_existing (fallback : Bool) (l : List SlotId) : ∀ existing,
    (∀ i ∈ l, ∃ x, b.slots i = some x) →
    Ensures (find_existing interface vtable fallback l existing) b (fun _ => (b = ·)) (b = ·) := by
  induction l with
  | nil =>
    intro existing _
    exact ensures_pure rfl
  | cons i l ih =>
    intro existing hl
    obtain ⟨x, hx⟩ := hl i mem_cons_self
    have hrest := fun j hj => hl j (mem_cons_of_mem i hj)
    refine ensures_bind (R := fun y b' => x = y ∧ b = b') (ensures_slot hx ⟨rfl, rfl⟩) ?_
    rintro _ _ ⟨rfl, rfl⟩
    refine ensures_check_bind rfl fun _ => ?_
    split
    · exact ensures_check_bind rfl fun _ => ih _ hrest
    · exact ih _ hrest

@[simp] theorem set_slot_set_slot {o o' : Option Slot} :
    (b.set_slot s o).set_slot s o' = b.set_slot s o' := by
  unfold set_slot
  congr 1
  funext t
  dsimp only
  split
  · rfl
  · rfl

/-- The only reference to a slot goes that is nowhere yet. -/
theorem ensures_unref_new (hx : b.slots s = some x) (hnode : x.node = none) (href : x.n_ref = 1) :
    Ensures (sd_bus_slot_unref s) b (fun _ b' => b' = b.set_slot s none) E := by
  have hself : ∀ y, (b.set_slot s (some y)).slots s = some y := fun _ => set_slot_self
  refine ensures_bind (R := fun y b' => x = y ∧ b = b') (ensures_slot hx ⟨rfl, rfl⟩) ?_
  rintro _ _ ⟨rfl, rfl⟩
  refine ensures_assert_bind (by simp [href]) ?_
  refine ensures_bind (R := fun _ b' => ∃ y, b' = b.set_slot s (some y) ∧ y.node = none)
    (ensures_update_slot hx ⟨_, rfl, hnode⟩) ?_
  rintro _ _ ⟨y, rfl, hy⟩
  refine ensures_when (fun _ => ?_) fun hne => ?_
  · refine ensures_bind (R := fun _ b' => ∃ y, b' = b.set_slot s (some y)) ?_ ?_
    · refine ensures_bind (R := fun z b' => y = z ∧ b.set_slot s (some y) = b')
        (ensures_slot (hself y) ⟨rfl, rfl⟩) ?_
      rintro _ _ ⟨rfl, rfl⟩
      refine ensures_when (fun _ => ?_) fun _ => ⟨_, rfl⟩
      refine ensures_bind (R := fun _ b' => ∃ y, b' = b.set_slot s (some y)) ?_ ?_
      · refine ensures_bind (R := fun z b' => y = z ∧ b.set_slot s (some y) = b')
          (ensures_slot (hself y) ⟨rfl, rfl⟩) ?_
        rintro _ _ ⟨rfl, rfl⟩
        refine ensures_bind (R := fun _ b' => ∃ y, b' = b.set_slot s (some y))
          (ensures_when (fun _ => ?_) fun _ => ⟨_, rfl⟩) ?_
        · unfold vtable_disconnect if_some
          rw [hy]
          exact ensures_update_slot (hself y) ⟨_, set_slot_set_slot⟩
        · rintro _ _ hb
          rw [hy]
          exact ensures_pure hb
      · rintro _ _ ⟨z, rfl⟩
        exact ensures_update_slot (hself z) ⟨_, set_slot_set_slot⟩
    · rintro _ _ ⟨z, rfl⟩
      exact ensures_modify set_slot_set_slot
  · rw [href] at hne
    cases hne

theorem Idle.parent_ne (h : Idle b s) (k : MemberKind) (m : BusVTableMember) (hm : Owned b k m) :
    m.parent ≠ s := by
  rintro rfl
  obtain ⟨s', y, hy, hown⟩ := hm
  obtain rfl := hown.parent
  obtain ⟨_, _, _, _, hat, _⟩ := hown
  exact h y hy _ _ hat

/-- The members a slot has once it is at a node. -/
theorem owns_iff_put (hbus : x.bus = true) (hty : x.type = .node_vtable) (hnode : x.node = some path)
    (hint : x.interface = some interface) (hvt : x.vtable = some vtable) (k : MemberKind)
    (m : BusVTableMember) : x.Owns s k m ↔ Put s path interface vtable.entries k m := by
  constructor
  · rintro ⟨path', interface', vtable', v, hat, hint', hvt', hv, hk, rfl⟩
    obtain rfl := Option.some.inj (hnode.symm.trans hat.2.2)
    obtain rfl := Option.some.inj (hint.symm.trans hint')
    obtain rfl := Option.some.inj (hvt.symm.trans hvt')
    exact ⟨v, hv, hk, rfl⟩
  · rintro ⟨v, hv, hk, rfl⟩
    exact ⟨path, interface, vtable, v, ⟨hbus, hty, hnode⟩, hint, hvt, hv, hk, rfl⟩

/-- The members go into the tables, or what has been put there is removed and
    the slot freed. -/
theorem ensures_vtable_members (h : Growing b above) (hx : b.slots s = some x)
    (hnode : x.node = none) (href : x.n_ref = 1) :
    Ensures (cleanup (do
        alloc
        update_slot s fun x => { x with interface := some interface }
        cleanup (add_members s path interface vtable vtable.entries [])
          (vtable.entries.forM (undo_member s path interface)))
        (sd_bus_slot_unref s)) b
      (fun _ b' => Placed b' above ∧ b'.slots s = some { x with interface := some interface } ∧
        Tables b' fun k m => Owned b' k m ∨ Put s path interface vtable.entries k m)
      (Growing · above) := by
  refine ensures_cleanup (F := fun b' => Growing b' above ∧ ∃ y, b'.slots s = some y ∧
    y.node = none ∧ y.n_ref = 1) ?_ ?_
  · refine ensures_bind (R := fun _ b' => ∃ j, b' = { b with memory := j })
      (ensures_alloc (fun _ => ⟨_, rfl⟩) fun _ => ⟨h, x, hx, hnode, href⟩) ?_
    rintro _ _ ⟨j, rfl⟩
    have hj : Growing { b with memory := j } above := h.congr ⟨rfl, ⟨rfl, rfl, rfl⟩⟩
    obtain ⟨y, hy⟩ : ∃ y : Slot, y = { x with interface := some interface } := ⟨_, rfl⟩
    have hynode : y.node = none := by rw [hy]; exact hnode
    rw [← hy]
    refine ensures_bind (R := fun _ b' => Growing b' above ∧ b'.slots s = some y)
      (ensures_update_slot hx ⟨?_, ?_⟩) ?_
    · refine hj.set_slot (idle_of_node hx hnode) ?_ (hj.lt hx)
      rintro z hz
      cases hz
      exact not_at_of_node hnode
    · rw [set_slot_self, hy]
    rintro _ b1 ⟨h1, hy1⟩
    refine ensures_cleanup (F := fun b' => Quiet b1 b' ∧ ∃ some_entries,
      (∀ v ∈ some_entries, v ∈ vtable.entries ∧ v.member ≠ []) ∧
        Tables b' fun k m => Owned b1 k m ∨ Put s path interface some_entries k m) ?_ ?_
    · refine ensures_mono (adds_members vtable.entries [] b1 _ h1.tables) ?_ fun _ h => h
      rintro _ b' ⟨hq, ht⟩
      refine ⟨h1.toPlaced.of_quiet hq, ?_, ?_⟩
      · rw [hq.slots, hy1]
      · rw [hq.owned]
        exact ht
    · rintro b2 ⟨hq2, some_entries, hsome, ht2⟩
      have hidle := (idle_of_node hy1 hynode).parent_ne
      have hundone : ∀ b', Quiet b2 b' ∧ Tables b' (Owned b1) → Growing b' above ∧
          ∃ y, b'.slots s = some y ∧ y.node = none ∧ y.n_ref = 1 := by
        rintro b' ⟨hq, ht⟩
        refine ⟨h1.of_quiet (hq2.trans hq) ht, y, ?_, hynode, ?_⟩
        · rw [hq.slots, hq2.slots, hy1]
        · rw [hy]
          exact href
      exact ensures_mono (ensures_undo_put hidle hsome ht2) (fun _ => hundone) fun _ h => h
  · rintro b' ⟨h', y, hy, hynode, hyref⟩
    refine ensures_mono (ensures_unref_new hy hynode hyref) ?_ fun _ h => h
    rintro _ _ rfl
    exact h'.set_slot (idle_of_node hy hynode) (fun z hz => by cases hz) (h'.lt hy)

theorem good_add_vtable (h : Good b) (floating fallback : Bool)
    (hclean : ∀ memory, (ObjectCall.add_vtable memory floating fallback path interface vtable).node_path
      = some path → AllOrNone b (b.missing path)) :
    Ensures (add_object_vtable_internal floating fallback path interface vtable) b
      (fun _ => Good) Good := by
  refine ensures_check_bind h fun hvalid => ?_
  have hslash := Slash.of_valid hvalid
  refine ensures_check_bind h fun hname => ensures_check_bind h fun hstart =>
    ensures_check_bind h fun hsize => ensures_check_bind h fun hreserved => ?_
  have hpath : (ObjectCall.add_vtable 0 floating fallback path interface vtable).node_path = some path :=
    if_pos (by rw [hvalid, hname, hstart, hsize, hreserved]; rfl)
  refine ensures_bind (h.allocate hslash (hclean 0 hpath)) fun _ b1 h1 => ?_
  refine ensures_cleanup (F := (Growing · (paths.Above · path))) ?_ fun b2 h2 => h2.gc hslash.pos
  obtain ⟨n, hn⟩ := Option.isSome_iff_exists.mp ((h1.nodes path).mpr (.inr .self))
  refine ensures_bind (R := fun m b' => n = m ∧ b1 = b') (ensures_node hn ⟨rfl, rfl⟩) ?_
  rintro _ _ ⟨rfl, rfl⟩
  have hlist : ∀ i ∈ n.list .node_vtable, ∃ x, b1.slots i = some x := by
    intro i hi
    obtain ⟨x, hx, _⟩ := (h1.tree.list path n _ i hn).mp hi
    exact ⟨x, hx⟩
  refine ensures_bind (ensures_mono (ensures_find_existing fallback _ none hlist) (fun _ _ h => h) ?_) ?_
  · rintro _ rfl
    exact h1
  rintro existing _ rfl
  refine ensures_bind (h1.slot_allocate .node_vtable floating) ?_
  rintro s b2 ⟨h2, hx2⟩
  obtain ⟨x, hx⟩ : ∃ x : Slot, x = { Slot.new .node_vtable floating with
    is_fallback := fallback, vtable := some vtable } := ⟨_, rfl⟩
  have hxnode : x.node = none := by rw [hx]; rfl
  refine ensures_bind (R := fun _ b' => Growing b' (paths.Above · path) ∧ b'.slots s = some x)
    (ensures_update_slot hx2 ⟨?_, ?_⟩) ?_
  · refine h2.set_slot (idle_of_node hx2 rfl) ?_ (h2.lt hx2)
    rintro z hz
    cases hz
    exact not_at_of_node rfl
  · rw [set_slot_self, hx]
  rintro _ b3 ⟨h3, hx3⟩
  refine ensures_bind (ensures_vtable_members h3 hx3 hxnode (by rw [hx]; rfl)) ?_
  rintro _ b4 ⟨h4, hx4, ht4⟩
  obtain ⟨y, hy⟩ : ∃ y : Slot, y = { x with interface := some interface } := ⟨_, rfl⟩
  rw [← hy] at hx4
  have hbus : y.bus = true := by rw [hy, hx]; rfl
  have hty : y.type = .node_vtable := by rw [hy, hx]; rfl
  have hvt : y.vtable = some vtable := by rw [hy, hx]
  have hynode : y.node = none := by rw [hy]; exact hxnode
  have hinsert : ∀ l, s ∉ l → (∀ t, t ∈ insert_vtable existing s l ↔ t = s ∨ t ∈ l) ∧
      (l.Nodup → (insert_vtable existing s l).Nodup) := fun l hl =>
    have hperm := insert_vtable_perm existing s l
    ⟨fun t => hperm.mem_iff.trans mem_cons,
      fun hnodup => hperm.nodup_iff.mpr (nodup_cons.mpr ⟨hl, hnodup⟩)⟩
  have hint : y.interface = some interface := by rw [hy]
  have hput := owns_iff_put (s := s) (x := { y with node := some path }) hbus hty rfl hint hvt
  have hattach := ensures_attach (E := (Growing · (paths.Above · path)))
    (f := insert_vtable existing s) (g := fun z => { z with node := some path }) h4 hslash hx4 hynode
    hbus (fun _ => ⟨rfl, rfl, rfl⟩) hinsert (ht4.congr fun k m => or_congr_right (hput k m).symm)
  rw [hty] at hattach
  exact hattach

theorem good_new : Good new := by
  have hnone : ∀ s t q, ¬ registry new s t q := by
    rintro s t q ⟨x, hx, _⟩
    cases hx
  refine ⟨⟨Tree.of_fits (fun q n hn => by cases hn) (fun c q hc => by cases hc) fun s t q hr =>
    (hnone s t q hr).elim, fun q => iff_of_false (by simp [new]) ?_, ?_, fun _ _ => rfl⟩, ?_⟩
  · rintro (⟨r, ⟨s, t, hr⟩, _⟩ | hfalse)
    · exact hnone s t r hr
    · exact hfalse
  · rintro q ⟨s, t, hr⟩
    exact (hnone s t q hr).elim
  · refine ⟨fun k m => iff_of_false not_mem_nil ?_, fun _ => .nil⟩
    rintro ⟨s, x, hx, _⟩
    cases hx

end vtable

/-! ## Section 6: Runs -/

/-- Calls one after the other. One that fails an assertion ends the program. -/
def object_system : System Objects ObjectCall where
  init b := b = new
  step b c b' := (c.run { b with memory := c.memory }).1 ≠ .abort ∧
    b' = (c.run { b with memory := c.memory }).2

/-- Where a call makes several nodes, memory does not run out half-way. -/
def Clean (b : Objects) (c : ObjectCall) : Prop :=
  ∀ path, c.node_path = some path → AllOrNone { b with memory := c.memory } (b.missing path)

/-- One call. -/
theorem good_step {c : ObjectCall} (h : Good b) (hclean : Clean b c)
    (hstep : object_system.step b c b') : Good b' := by
  obtain ⟨hne, rfl⟩ := hstep
  have hm : Good { b with memory := c.memory } := h.congr ⟨rfl, ⟨rfl, rfl, rfl⟩⟩
  have hrun : Holds c.run { b with memory := c.memory } (fun _ => Good) Good := by
    cases c with
    | add_object memory floating fallback path callback =>
      refine holds_bind (R := fun _ => Good) ?_ fun _ _ h => h
      refine holds_check_bind hm fun hvalid => holds_check_bind hm fun hcallback => ?_
      refine (good_add_node_slot hm (Slash.of_valid hvalid) (hclean path (if_pos ?_)) _ _ _).holds
      rw [hvalid, hcallback]
      rfl
    | add_node_enumerator memory floating path callback =>
      refine holds_bind (R := fun _ => Good) ?_ fun _ _ h => h
      refine holds_check_bind hm fun hvalid => holds_check_bind hm fun hcallback => ?_
      refine (good_add_node_slot hm (Slash.of_valid hvalid) (hclean path (if_pos ?_)) _ _ _).holds
      rw [hvalid, hcallback]
      rfl
    | add_object_manager memory floating path =>
      refine holds_bind (R := fun _ => Good) ?_ fun _ _ h => h
      refine holds_check_bind hm fun hvalid => ?_
      exact (good_add_node_slot hm (Slash.of_valid hvalid) (hclean path (if_pos hvalid)) _ _ _).holds
    | add_vtable memory floating fallback path interface vtable =>
      refine holds_bind (R := fun _ => Good) ?_ fun _ _ h => h
      exact (good_add_vtable hm floating fallback fun _ hpath => hclean path hpath).holds
    | slot_ref s => exact keeps_ref s _ hm
    | slot_unref s => exact keeps_unref s _ hm
    | slot_disconnect s => exact keeps_disconnect s _ hm
  unfold Holds at hrun
  match hr : c.run { b with memory := c.memory } with
  | (.ok _, b1) =>
    rw [hr] at hrun
    exact hrun
  | (.err _, b1) =>
    rw [hr] at hrun
    exact hrun
  | (.abort, _) =>
    rw [hr] at hne
    exact absurd rfl hne

theorem good_of_reachable (h : Reachable (object_system.restrict Clean) b) : Good b := by
  have hinit : ∀ b, (object_system.restrict Clean).init b → Good b := by
    rintro b rfl
    exact good_new
  exact Reachable.invariant hinit (fun b c b' hb hstep => good_step hb hstep.1 hstep.2) h

/-- `/a/b` -/
def some_path : Path := [0x2f, 0x61, 0x2f, 0x62]

end good

end SdCompat.Objects
