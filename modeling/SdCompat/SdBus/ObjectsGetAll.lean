import SdCompat.SdBus.ObjectsProperties

/-! # Get and GetAll agree (bus-objects.c)

    Get looks a property up in the table, for one node after the other. GetAll
    is answered at the first node where something is known of the object, from
    the vtables of that node alone: it agrees with Get if and only if the
    interface has a vtable there, and its other properties are not to be had
    farther up.
-/

namespace SdCompat.Objects

open Bus Transition List
open Option (some)

/-! ## Section 1: The object tree -/

/-- What Get and GetAll rely on: where there is a node there is its parent, the
    lists have the vtables that are registered, the tables have their members,
    and the vtables are complete. -/
structure Served (b : Objects) : Prop extends Vtables b where
  parent : ∀ q r, parent_path q = some r → (b.nodes q).isSome → (b.nodes r).isSome
  list : ∀ q n s, b.nodes q = some n →
    (s ∈ n.list .node_vtable ↔ ∃ x, b.slots s = some x ∧ x.At .node_vtable q)
  nodup : ∀ q n, b.nodes q = some n → (n.list .node_vtable).Nodup
  tables : Tables b (Owned b)

/-- The object tree is like this after every run. -/
theorem served_of_reachable {b : Objects} (h : Reachable (object_system.restrict Clean) b) :
    Served b := by
  have hg := good_of_reachable h
  refine ⟨vtables_of_reachable h, fun q r hr hq => ?_, fun q n s hn => ?_, fun q n hn => ?_, hg.tables⟩
  · have hcov := ((hg.nodes q).mp hq).resolve_right id
    exact (hg.nodes r).mpr (.inl (hcov.above (.up hr .self)))
  · exact hg.tree.list q n _ s hn
  · exact hg.tree.list_nodup q n _ hn

section tree
variable {b : Objects} {q : Path} {n : BusNode} {s : SlotId} {c c' : BusNodeVTable}
  {e : VtableEntry}

/-- The vtable of a slot. -/
theorem node_vtable_eq_some : node_vtable b s = some c ↔ c.slot = s ∧ ∃ x, b.slots s = some x ∧
    x.is_fallback = c.is_fallback ∧ x.interface = some c.interface ∧ x.vtable = some c.vtable := by
  unfold node_vtable
  constructor
  · intro h
    obtain ⟨x, hx, h⟩ := Option.bind_eq_some_iff.mp h
    obtain ⟨i, hi, h⟩ := Option.bind_eq_some_iff.mp h
    obtain ⟨v, hv, rfl⟩ := Option.map_eq_some_iff.mp h
    exact ⟨rfl, x, hx, rfl, hi, hv⟩
  · rintro ⟨rfl, x, hx, hf, hi, hv⟩
    rw [hx, Option.bind_some, hi, Option.bind_some, hv, Option.map_some, hf]

theorem mem_vtables : c ∈ vtables b n ↔ c.slot ∈ n.list .node_vtable ∧
    ∃ x, b.slots c.slot = some x ∧ x.is_fallback = c.is_fallback ∧
      x.interface = some c.interface ∧ x.vtable = some c.vtable := by
  unfold vtables
  rw [mem_filterMap]
  constructor
  · rintro ⟨s, hs, hc⟩
    obtain ⟨rfl, x⟩ := node_vtable_eq_some.mp hc
    exact ⟨hs, x⟩
  · rintro ⟨hs, x⟩
    exact ⟨c.slot, hs, node_vtable_eq_some.mpr ⟨rfl, x⟩⟩

/-- A slot stands for one vtable. -/
theorem vtables_slot_inj (h : c ∈ vtables b n) (h' : c' ∈ vtables b n) (hs : c'.slot = c.slot) :
    c' = c := by
  obtain ⟨_, x, hx, hf, hi, hv⟩ := mem_vtables.mp h
  obtain ⟨_, y, hy, hf', hi', hv'⟩ := mem_vtables.mp h'
  rw [hs, hx] at hy
  cases c'
  simp_all

section
variable (hb : Served b)
include hb

theorem vtables_nodup (hn : b.nodes q = some n) : (vtables b n).Nodup := by
  refine (hb.nodup q n hn).filterMap fun s t c hs ht => ?_
  obtain ⟨rfl, _⟩ := node_vtable_eq_some.mp hs
  obtain ⟨rfl, _⟩ := node_vtable_eq_some.mp ht
  rfl

/-- The properties of a vtable in the list are in the table. -/
theorem owned_of_mem_vtables (hn : b.nodes q = some n) (hc : c ∈ vtables b n)
    (he : e ∈ c.vtable.entries) (hk : e.kind = some .property) :
    ⟨c.slot, q, c.interface, e.member, e⟩ ∈ b.members .property := by
  obtain ⟨hs, x, hx, _, hi, hv⟩ := mem_vtables.mp hc
  obtain ⟨y, hy, hat⟩ := (hb.list q n c.slot hn).mp hs
  obtain rfl := some.inj (hx.symm.trans hy)
  exact (hb.tables.members _ _).mpr ⟨c.slot, x, hx, q, c.interface, c.vtable, e, hat, hi, hv, he, hk, rfl⟩

variable {m : BusVTableMember}

theorem mem_vtables_of_owned (hn : b.nodes q = some n) (hm : m ∈ b.members .property)
    (hq : m.path = q) : ∃ c ∈ vtables b n, c.slot = m.parent ∧
      c.interface = m.interface ∧ m.vtable ∈ c.vtable.entries ∧
      m.vtable.kind = some .property ∧ m.vtable.member = m.member := by
  obtain ⟨s, x, hx, p, i, v, e, hat, hi, hv, he, hk, rfl⟩ := (hb.tables.members _ _).mp hm
  obtain rfl : p = q := hq
  refine ⟨⟨s, x.is_fallback, i, v⟩, mem_vtables.mpr ⟨?_, x, hx, rfl, hi, hv⟩, rfl, rfl, he, hk, rfl⟩
  exact (hb.list p n s hn).mpr ⟨x, hx, hat⟩

theorem eq_of_key {k : MemberKind} {m' : BusVTableMember} (hm : m ∈ b.members k)
    (hm' : m' ∈ b.members k) (hkey : m.key = m'.key) : m = m' :=
  hb.tables.eq_of_key ((hb.tables.members k m).mp hm) ((hb.tables.members k m').mp hm') hkey

/-- At one node, the name of a property of an interface tells the property. -/
theorem property_unique (hn : b.nodes q = some n) (hc : c ∈ vtables b n) (hc' : c' ∈ vtables b n)
    (hi : c'.interface = c.interface) {e' : VtableEntry} (he : e ∈ c.vtable.entries)
    (hk : e.kind = some .property) (he' : e' ∈ c'.vtable.entries) (hk' : e'.kind = some .property)
    (hname : e'.member = e.member) : c' = c ∧ e' = e := by
  have hm := owned_of_mem_vtables hb hn hc he hk
  have hm' := owned_of_mem_vtables hb hn hc' he' hk'
  have hsame := eq_of_key hb hm hm' (by
    unfold BusVTableMember.key
    rw [hi, hname])
  rw [BusVTableMember.mk.injEq] at hsame
  exact ⟨vtables_slot_inj hc hc' hsame.1.symm, hsame.2.2.2.2.symm⟩

/-- What is looked up in the table is a property of a vtable of the node. -/
theorem set_get_property (hn : b.nodes q = some n) (hc : c ∈ vtables b n)
    (he : e ∈ c.vtable.entries) (hk : e.kind = some .property) :
    set_get b .property (q, c.interface, e.member) =
      some ⟨c.slot, q, c.interface, e.member, e⟩ := by
  have hm := owned_of_mem_vtables hb hn hc he hk
  unfold set_get
  cases hfind : (b.members .property).find? fun m => m.key == (q, c.interface, e.member) with
  | none => exact absurd (beq_iff_eq.mpr rfl) (find?_eq_none.mp hfind _ hm)
  | some m =>
    have hfound := find?_some hfind
    have hkey := beq_iff_eq.mp hfound
    rw [eq_of_key hb (mem_of_find?_eq_some hfind) hm hkey]

/-- No vtable has a method of the interface of the calls. -/
theorem no_properties_method (p : Path) (member : List UInt8) :
    set_get b .method (p, PROPERTIES, member) = none := by
  refine find?_eq_none.mpr fun m hm hkey => ?_
  obtain ⟨s, x, hx, q, i, v, e, hat, hi, _, _, _, rfl⟩ := (hb.tables.members _ _).mp hm
  obtain ⟨j, w, hc⟩ := hb.complete s x q hx hat
  obtain rfl := some.inj (hi.symm.trans hc.interface)
  have hkey := beq_iff_eq.mp hkey
  unfold BusVTableMember.key at hkey
  simp only [Prod.mk.injEq] at hkey
  have hreserved := hc.reserved
  rw [hkey.2.1] at hreserved
  revert hreserved
  decide +kernel

end

end tree

/-! ## Section 2: What is known at a node -/

section places
variable {Val : Type} (env : Callbacks Val) (b : Objects) (path : Path)

/-- A vtable of the node applies to the path. -/
def applies (require_fallback : Bool) (c : BusNodeVTable) : Bool :=
  !(require_fallback && !c.is_fallback) && env.find c.slot path

/-- The vtables that apply at a place. -/
def vtables_at (p : Place) : List BusNodeVTable :=
  match b.nodes p.node with
  | none => []
  | some n => (vtables b n).filter (applies env path p.require_fallback)

/-- The callbacks of objects that apply there. -/
def callbacks_at (p : Place) : List SlotId :=
  match b.nodes p.node with
  | none => []
  | some n => (n.list .node_callback).filter fun s => !(p.require_fallback && !is_fallback b s)

/-- A callback there has replied to the call. -/
def Takes (call : PropertiesCall) (p : Place) : Prop :=
  ∃ s ∈ callbacks_at b p, env.object s call = true

/-- A callback of an object or a vtable applies. -/
def Known (p : Place) : Prop := callbacks_at b p ≠ [] ∨ vtables_at env b path p ≠ []

/-- An enumerator or an object manager is at the node itself. -/
def Kept (p : Place) : Prop := p.require_fallback = false ∧ ∃ n, b.nodes p.node = some n ∧
  (n.list .node_enumerator ≠ [] ∨ n.list .node_object_manager ≠ [])

/-- An element of a vtable is the property of this name. -/
def VtableEntry.Names (e : VtableEntry) (member : List UInt8) : Prop :=
  e.kind = some .property ∧ e.member = member

/-- A vtable of the interface that applies has the property. -/
def Declares (interface member : List UInt8) (p : Place) : Prop :=
  ∃ c ∈ vtables_at env b path p, c.interface = interface ∧
    ∃ e ∈ c.vtable.entries, e.Names member

/-- An interface is one that was asked for. -/
def wanted (iface : List UInt8) (c : BusNodeVTable) : Bool := iface == [] || c.interface == iface

/-- The properties GetAll replies with, at a place. -/
def properties_at (iface : List UInt8) (p : Place) : List (List UInt8 × Val) :=
  ((vtables_at env b path p).filter (wanted iface)).flatMap
    (vtable_append_all_properties env path false)

/-- A property is in general dumps: neither it nor its vtable is hidden, and it
    is not explicit. -/
def Visible (c : BusNodeVTable) (e : VtableEntry) : Prop :=
  c.vtable.flags &&& SD_BUS_VTABLE_HIDDEN = 0 ∧ appended false e = true

end places

/-! ## Section 3: One node -/

section step
variable {Val : Type} {env : Callbacks Val} {b : Objects} {path : Path} {p : Place} {n : BusNode}
  {call : PropertiesCall} {f : Bool} {c : BusNodeVTable} {e : VtableEntry}
  {interface member : List UInt8}

theorem vtables_at_eq (hn : b.nodes p.node = some n) :
    vtables_at env b path p = (vtables b n).filter (applies env path p.require_fallback) := by
  unfold vtables_at
  rw [hn]

theorem callbacks_at_eq (hn : b.nodes p.node = some n) : callbacks_at b p =
    (n.list .node_callback).filter fun s => !(p.require_fallback && !is_fallback b s) := by
  unfold callbacks_at
  rw [hn]

variable {l : List SlotId} {rf : Bool}

/-- The callbacks of a node, when none of them replies. -/
theorem node_callbacks_run_ok
    (h : ∀ s ∈ l.filter fun s => !(rf && !is_fallback b s), env.object s call = false) :
    node_callbacks_run env b call rf l f =
      .ok (f || !(l.filter fun s => !(rf && !is_fallback b s)).isEmpty) := by
  induction l generalizing f with
  | nil =>
    rw [filter_nil, isEmpty_nil, Bool.not_true, Bool.or_false]
    rfl
  | cons s l ih =>
    unfold node_callbacks_run
    cases hs : rf && !is_fallback b s with
    | true =>
      rw [filter_cons_of_neg (by rw [hs]; decide)] at h ⊢
      rw [if_pos rfl, ih h]
    | false =>
      rw [filter_cons_of_pos (by rw [hs]; rfl)] at h ⊢
      obtain ⟨hfirst, hrest⟩ := forall_mem_cons.mp h
      rw [if_neg (by decide), hfirst, if_neg (by decide), ih hrest]
      rw [isEmpty_cons, Bool.true_or, Bool.not_false, Bool.or_true]

/-- One of them replies. -/
theorem node_callbacks_run_error
    (h : ∃ s ∈ l.filter fun s => !(rf && !is_fallback b s), env.object s call = true) :
    ∃ s, node_callbacks_run env b call rf l f = .error (.callback s) := by
  induction l generalizing f with
  | nil =>
    obtain ⟨s, hs, _⟩ := h
    cases hs
  | cons s l ih =>
    unfold node_callbacks_run
    cases hs : rf && !is_fallback b s with
    | true =>
      rw [filter_cons_of_neg (by rw [hs]; decide)] at h
      exact ih h
    | false =>
      rw [filter_cons_of_pos (by rw [hs]; rfl)] at h
      rw [if_neg (by decide)]
      cases htake : env.object s call with
      | true => exact ⟨s, if_pos rfl⟩
      | false =>
        obtain ⟨t, ht, htrue⟩ := h
        rcases mem_cons.mp ht with rfl | ht
        · rw [htake] at htrue
          cases htrue
        · exact ih ⟨t, ht, htrue⟩

/-- What comes behind the callbacks. -/
theorem object_find_and_run_eq (hb : Served b) (hn : b.nodes p.node = some n)
    (h : ∀ s ∈ callbacks_at b p, env.object s call = false) :
    object_find_and_run env b path call p f =
      (property_run env b path call n p (f || !(callbacks_at b p).isEmpty)).map
        (· || bus_node_exists env b path n p.require_fallback) := by
  unfold object_find_and_run method_run
  rw [callbacks_at_eq hn] at h ⊢
  rw [hn]
  dsimp only
  rw [node_callbacks_run_ok h, no_properties_method hb]
  change Except.bind (property_run env b path call n p _) _ = _
  cases property_run env b path call n p _ with
  | ok _ => rfl
  | error _ => rfl

theorem object_find_and_run_takes (path : Path) (f : Bool) (h : Takes env b call p) :
    ∃ s, object_find_and_run env b path call p f = .error (.callback s) := by
  unfold object_find_and_run
  obtain ⟨t, ht, htrue⟩ := h
  cases hn : b.nodes p.node with
  | none =>
    unfold callbacks_at at ht
    rw [hn] at ht
    cases ht
  | some n =>
    rw [callbacks_at_eq hn] at ht
    obtain ⟨s, hs⟩ := node_callbacks_run_error (f := f) ⟨t, ht, htrue⟩
    refine ⟨s, ?_⟩
    dsimp only
    rw [hs]
    rfl

theorem object_find_and_run_none (hn : b.nodes p.node = none) :
    object_find_and_run env b path call p f = .ok f := by
  unfold object_find_and_run
  rw [hn]

theorem not_takes (h : ¬ Takes env b call p) : ∀ s ∈ callbacks_at b p, env.object s call = false := by
  intro s hs
  cases htake : env.object s call with
  | false => rfl
  | true => exact absurd ⟨s, hs, htake⟩ h

/-! ### Get -/

/-- Get, where the property is declared. -/
theorem get_declared (hb : Served b) (hc : c ∈ vtables_at env b path p)
    (he : e ∈ c.vtable.entries) (hk : e.kind = some .property)
    (htake : ¬ Takes env b (.get c.interface e.member) p) :
    object_find_and_run env b path (.get c.interface e.member) p f =
      .error (.value (env.get c.slot e path)) := by
  cases hn : b.nodes p.node with
  | none =>
    unfold vtables_at at hc
    rw [hn] at hc
    cases hc
  | some n =>
    rw [vtables_at_eq hn] at hc
    obtain ⟨hmem, happlies⟩ := mem_filter.mp hc
    obtain ⟨hfallback, hfind⟩ := Bool.and_eq_true_iff.mp happlies
    obtain ⟨_, x, hx, hf, _⟩ := mem_vtables.mp hmem
    have hsame : is_fallback b c.slot = c.is_fallback := by
      unfold is_fallback
      rw [hx, Option.any_some, hf]
    rw [object_find_and_run_eq hb hn (not_takes htake)]
    unfold property_run
    dsimp only
    rw [set_get_property hb hn hmem he hk]
    unfold property_get_callbacks_run
    dsimp only
    rw [hsame, if_neg (by rw [Bool.not_eq_true']at hfallback; rw [hfallback]; decide), hfind]
    rfl

/-- Get, where it is not. -/
theorem get_undeclared (hb : Served b) (hdecl : ¬ Declares env b path interface member p)
    (htake : ¬ Takes env b (.get interface member) p) :
    ∃ f', object_find_and_run env b path (.get interface member) p f = .ok f' := by
  cases hn : b.nodes p.node with
  | none => exact ⟨f, object_find_and_run_none hn⟩
  | some n =>
    rw [object_find_and_run_eq hb hn (not_takes htake)]
    unfold property_run
    dsimp only
    cases hget : set_get b .property (p.node, interface, member) with
    | none => exact ⟨_, rfl⟩
    | some m =>
      dsimp only
      unfold property_get_callbacks_run
      have hfound := find?_some hget
      have hkey := beq_iff_eq.mp hfound
      unfold BusVTableMember.key at hkey
      simp only [Prod.mk.injEq] at hkey
      obtain ⟨c, hc, hslot, hi, hentry, hk, hname⟩ :=
        mem_vtables_of_owned hb hn (mem_of_find?_eq_some hget) hkey.1
      obtain ⟨_, x, hx, hf, _⟩ := mem_vtables.mp hc
      have hsame : is_fallback b m.parent = c.is_fallback := by
        unfold is_fallback
        rw [← hslot, hx, Option.any_some, hf]
      rw [hsame, ← hslot]
      cases hrf : p.require_fallback && !c.is_fallback with
      | true => exact ⟨_, rfl⟩
      | false =>
        cases hfind : env.find c.slot path with
        | false => exact ⟨_, rfl⟩
        | true =>
          refine absurd ⟨c, ?_, hi.trans hkey.2.1, m.vtable, hentry, hk, hname.trans hkey.2.2⟩ hdecl
          rw [vtables_at_eq hn]
          refine mem_filter.mpr ⟨hc, ?_⟩
          unfold applies
          rw [hrf, hfind]
          rfl

/-! ### GetAll -/

variable {iface : List UInt8}

theorem get_all_fold (l : List BusNodeVTable) : ∀ a : GetAll Val,
    l.foldl (property_get_all_vtable env path rf iface) a =
      ⟨a.found_object || !(l.filter (applies env path rf)).isEmpty,
        a.found_interface || (l.filter (applies env path rf)).any (wanted iface),
        a.reply ++ ((l.filter (applies env path rf)).filter (wanted iface)).flatMap
          (vtable_append_all_properties env path false)⟩ := by
  induction l with
  | nil =>
    simp
  | cons c l ih =>
    intro a
    rw [foldl_cons, ih]
    unfold property_get_all_vtable
    cases hrf : rf && !c.is_fallback with
    | true =>
      rw [if_pos rfl, filter_cons_of_neg (by unfold applies; rw [hrf, Bool.not_true, Bool.false_and]; decide)]
    | false =>
      cases hfind : env.find c.slot path with
      | false =>
        rw [filter_cons_of_neg (by unfold applies; rw [hfind, Bool.and_false]; decide)]
        rfl
      | true =>
        rw [filter_cons_of_pos (by unfold applies; rw [hrf, hfind]; rfl)]
        have hwanted : (iface != [] && c.interface != iface) = !wanted iface c := by
          unfold wanted
          rw [Bool.not_or]
          rfl
        rw [hwanted, any_cons]
        cases hw : wanted iface c with
        | true =>
          rw [filter_cons_of_pos hw]
          simp
        | false =>
          rw [filter_cons_of_neg (by rw [hw]; decide)]
          simp

/-- What GetAll does behind the callbacks. -/
theorem get_all_run (hn : b.nodes p.node = some n) :
    property_run env b path (.get_all iface) n p f =
      if f || !(vtables_at env b path p).isEmpty then
        if iface == [] || builtin_interface iface || (vtables_at env b path p).any (wanted iface) then
          .error (.properties (properties_at env b path iface p))
        else .error (.unknown_interface iface)
      else .ok false := by
  unfold property_run property_get_all_callbacks_run properties_at
  dsimp only
  rw [get_all_fold, vtables_at_eq hn]
  cases f || !((vtables b n).filter (applies env path p.require_fallback)).isEmpty with
  | false => rfl
  | true =>
    cases iface == [] || builtin_interface iface ||
      ((vtables b n).filter (applies env path p.require_fallback)).any (wanted iface) with
    | false => rfl
    | true => rfl

theorem not_known (h : ¬ Known env b path p) :
    callbacks_at b p = [] ∧ vtables_at env b path p = [] := by
  unfold Known at h
  rw [not_or] at h
  exact ⟨not_not.mp h.1, not_not.mp h.2⟩

/-- GetAll is answered where something is known. -/
theorem get_all_known (hb : Served b) (hn : (b.nodes p.node).isSome)
    (hknown : f = true ∨ Known env b path p) (htake : ¬ Takes env b (.get_all iface) p) :
    object_find_and_run env b path (.get_all iface) p f =
      if iface == [] || builtin_interface iface || (vtables_at env b path p).any (wanted iface) then
        .error (.properties (properties_at env b path iface p))
      else .error (.unknown_interface iface) := by
  obtain ⟨n, hn⟩ := Option.isSome_iff_exists.mp hn
  have hfound : (f || !(callbacks_at b p).isEmpty || !(vtables_at env b path p).isEmpty) = true := by
    rcases hknown with rfl | hcallbacks | hvtables
    · rfl
    · rw [← isEmpty_eq_false_iff] at hcallbacks
      rw [hcallbacks, Bool.not_false, Bool.or_true, Bool.true_or]
    · rw [← isEmpty_eq_false_iff] at hvtables
      rw [hvtables, Bool.not_false, Bool.or_true]
  rw [object_find_and_run_eq hb hn (not_takes htake), get_all_run hn, if_pos hfound]
  split <;> rfl

/-- Where nothing is, it is not, but the object may be kept. -/
theorem get_all_unknown (iface : List UInt8) (hb : Served b) (h : ¬ Known env b path p) :
    ∃ k, object_find_and_run env b path (.get_all iface) p false = .ok k ∧
      (k = true ↔ Kept b p) := by
  obtain ⟨hcallbacks, hvtables⟩ := not_known h
  cases hn : b.nodes p.node with
  | none =>
    refine ⟨false, object_find_and_run_none hn, nofun, ?_⟩
    rintro ⟨_, n, hn', _⟩
    rw [hn] at hn'
    cases hn'
  | some n =>
    have htake : ∀ s ∈ callbacks_at b p, env.object s (.get_all iface) = false := by
      rw [hcallbacks]
      exact nofun
    rw [object_find_and_run_eq hb hn htake, get_all_run hn, hcallbacks, hvtables]
    refine ⟨_, rfl, ?_⟩
    rw [callbacks_at_eq hn, filter_eq_nil_iff] at hcallbacks
    rw [vtables_at_eq hn, filter_eq_nil_iff] at hvtables
    have hnone : ((n.list .node_callback).any fun s => !(p.require_fallback && !is_fallback b s)) =
        false := any_eq_false.mpr hcallbacks
    have hnone' : ((vtables b n).any fun c => !(p.require_fallback && !c.is_fallback) &&
        env.find c.slot path) = false := any_eq_false.mpr hvtables
    unfold bus_node_exists Kept
    rw [hnone, hnone']
    simp only [Bool.or_false, Bool.false_or, Bool.and_eq_true, Bool.not_eq_true', Bool.or_eq_true,
      isEmpty_eq_false_iff, hn, some.injEq, exists_eq_left']

end step

/-! ## Section 4: All nodes -/

section run
variable {Val : Type} {env : Callbacks Val} {b : Objects} {path : Path} {p q r : Place}
  {before after near far ps : List Place} {call : PropertiesCall} {f : Bool} {c : BusNodeVTable}
  {e : VtableEntry} {interface member : List UInt8}

/-- The node of the path comes first, then that of its parent. -/
theorem places_cons_cons (h : places path = p :: q :: ps) : p.node = path ∧
    parent_path path = some q.node := by
  unfold places prefixes at h
  cases path with
  | nil => cases h
  | cons x path =>
    obtain ⟨rfl, htail⟩ := cons.inj h
    refine ⟨rfl, ?_⟩
    rw [length_cons, prefixes_at] at htail
    cases hparent : parent_path (x :: path) with
    | none =>
      rw [hparent] at htail
      cases htail
    | some s =>
      rw [hparent] at htail
      obtain ⟨rfl, _⟩ := cons.inj htail
      rfl

/-- All but the first are for fallbacks. -/
theorem places_tail (h : places path = p :: ps) : ∀ q ∈ ps, q.require_fallback = true := by
  obtain ⟨-, rfl⟩ := cons.inj h
  intro q hq
  obtain ⟨s, _, rfl⟩ := mem_map.mp hq
  rfl

theorem find_and_run_cons : find_and_run env b path call (p :: ps) f =
    (object_find_and_run env b path call p f).bind (find_and_run env b path call ps) := rfl

theorem find_and_run_append : find_and_run env b path call (near ++ far) f =
    (find_and_run env b path call near f).bind (find_and_run env b path call far) := by
  induction near generalizing f with
  | nil => rfl
  | cons p near ih =>
    rw [cons_append, find_and_run_cons, find_and_run_cons]
    cases object_find_and_run env b path call p f with
    | error _ => rfl
    | ok f' => exact ih

variable {x : Reply Val}

/-- What the call returns is what ends the loop. -/
theorem bus_process_object_iff (hx : ∀ i m, x ≠ .unknown_property i m)
    (hx' : ∀ m i, x ≠ .unknown_method m i) : bus_process_object env b path call = some x ↔
      find_and_run env b path call (places path) false = .error x := by
  unfold bus_process_object
  cases find_and_run env b path call (places path) false with
  | error y => simp
  | ok f =>
    cases f with
    | false => simp
    | true =>
      cases call with
      | get i m => simpa using (hx i m).symm
      | get_all i => simpa using (hx' _ _).symm

/-! ### Get -/

section
variable (hb : Served b) (hnear : ∀ p ∈ near, ¬ Declares env b path interface member p)
include hb hnear

/-- Where the property is not declared, Get goes on, if no callback replies. -/
theorem get_passes :
    (∃ s, find_and_run env b path (.get interface member) near f = .error (.callback s)) ∨
      (∃ f', find_and_run env b path (.get interface member) near f = .ok f') ∧
        ∀ p ∈ near, ¬ Takes env b (.get interface member) p := by
  induction near generalizing f with
  | nil => exact .inr ⟨⟨f, rfl⟩, nofun⟩
  | cons p near ih =>
    obtain ⟨hp, hnear⟩ := forall_mem_cons.mp hnear
    rw [find_and_run_cons]
    by_cases htake : Takes env b (.get interface member) p
    · obtain ⟨s, hs⟩ := object_find_and_run_takes path f htake
      rw [hs]
      exact .inl ⟨s, rfl⟩
    · obtain ⟨f', hf'⟩ := get_undeclared (f := f) hb hp htake
      rw [hf']
      rcases ih hnear (f := f') with hs | ⟨hok, hall⟩
      · exact .inl hs
      · exact .inr ⟨hok, forall_mem_cons.mpr ⟨htake, hall⟩⟩

theorem get_passes_of (htake : ∀ p ∈ near, ¬ Takes env b (.get interface member) p) :
    ∃ f', find_and_run env b path (.get interface member) near f = .ok f' := by
  induction near generalizing f with
  | nil => exact ⟨f, rfl⟩
  | cons p near ih =>
    obtain ⟨hp, hnear⟩ := forall_mem_cons.mp hnear
    obtain ⟨htp, htake⟩ := forall_mem_cons.mp htake
    rw [find_and_run_cons]
    obtain ⟨f', hf'⟩ := get_undeclared (f := f) hb hp htp
    rw [hf']
    exact ih hnear htake

end

variable (env b path) in
/-- The property that Get reads: the one declared nearest. -/
structure Reads (near : List Place) (r : Place) (far : List Place) (c : BusNodeVTable)
    (e : VtableEntry) : Prop where
  places : places path = near ++ r :: far
  nearest : ∀ p ∈ near, ¬ Declares env b path c.interface e.member p
  vtable : c ∈ vtables_at env b path r
  entry : e ∈ c.vtable.entries
  kind : e.kind = some .property

/-- Get replies with its value if and only if no callback replies. -/
theorem get_reads (hb : Served b) (h : Reads env b path near r far c e) {v : Val} :
    bus_process_object env b path (.get c.interface e.member) = some (.value v) ↔
      v = env.get c.slot e path ∧
        ∀ p ∈ near ++ [r], ¬ Takes env b (.get c.interface e.member) p := by
  rw [bus_process_object_iff (fun _ _ heq => by cases heq) (fun _ _ heq => by cases heq), h.places,
    find_and_run_append]
  constructor
  · intro hrun
    rcases get_passes (f := false) hb h.nearest with ⟨s, hs⟩ | ⟨⟨f', hf'⟩, hall⟩
    · rw [hs] at hrun
      cases hrun
    rw [hf'] at hrun
    change (object_find_and_run env b path _ r f').bind _ = _ at hrun
    by_cases htake : Takes env b (.get c.interface e.member) r
    · obtain ⟨s, hs⟩ := object_find_and_run_takes path f' htake
      rw [hs] at hrun
      cases hrun
    · rw [get_declared hb h.vtable h.entry h.kind htake] at hrun
      cases hrun
      refine ⟨rfl, fun p hp => ?_⟩
      rcases mem_append.mp hp with hp | hp
      · exact hall p hp
      · obtain rfl := mem_singleton.mp hp
        exact htake
  · rintro ⟨rfl, htake⟩
    obtain ⟨hnear, hr⟩ := forall_mem_append.mp htake
    obtain ⟨f', hf'⟩ := get_passes_of (f := false) hb h.nearest hnear
    rw [hf']
    change (object_find_and_run env b path _ r f').bind _ = _
    rw [get_declared hb h.vtable h.entry h.kind (hr r (mem_singleton_self r))]
    rfl

/-! ### GetAll -/

variable (env b path) in
/-- The node where GetAll is answered: the first where something is known of the
    object, or the one behind a node that an enumerator or an object manager
    keeps. -/
structure Decided (before : List Place) (q : Place) (after : List Place) : Prop where
  places : places path = before ++ q :: after
  unknown : ∀ r ∈ before, ¬ Known env b path r
  kept : ∀ r ∈ before, Kept b r → before = [r]
  decides : Known env b path q ∨ ∃ r ∈ before, Kept b r

/-- Only the node of the path itself can be kept. -/
theorem not_kept (h : places path = p :: ps) : ∀ q ∈ ps, ¬ Kept b q := by
  rintro q hq ⟨hrf, _⟩
  rw [places_tail h q hq] at hrf
  cases hrf

theorem known_isSome (h : Known env b path p) : (b.nodes p.node).isSome := by
  unfold Known callbacks_at vtables_at at h
  cases hn : b.nodes p.node with
  | some _ => rfl
  | none =>
    rw [hn] at h
    rcases h with h | h <;> exact absurd rfl h

/-- GetAll passes nodes where nothing is known or kept. -/
theorem get_all_passes (hb : Served b) (h : ∀ p ∈ near, ¬ Known env b path p)
    (hkept : ∀ p ∈ near, ¬ Kept b p) :
    find_and_run env b path (.get_all interface) near false = .ok false := by
  induction near with
  | nil => rfl
  | cons p near ih =>
    obtain ⟨hp, h⟩ := forall_mem_cons.mp h
    obtain ⟨hkp, hkept⟩ := forall_mem_cons.mp hkept
    obtain ⟨k, hk, hiff⟩ := get_all_unknown interface hb hp
    have hfalse : k = false := Bool.eq_false_iff.mpr fun heq => hkp (hiff.mp heq)
    rw [find_and_run_cons, hk, hfalse]
    exact ih h hkept

/-- It is answered at the node that decides, unless a callback there replies. -/
theorem get_all_decided (hb : Served b) (h : Decided env b path before q after)
    (htake : ¬ Takes env b (.get_all interface) q) :
    find_and_run env b path (.get_all interface) (places path) false =
      if interface == [] || builtin_interface interface ||
          (vtables_at env b path q).any (wanted interface) then
        .error (.properties (properties_at env b path interface q))
      else .error (.unknown_interface interface) := by
  have hbefore : ∃ f, find_and_run env b path (.get_all interface) before false = .ok f ∧
      (f = true ∨ Known env b path q) ∧ (b.nodes q.node).isSome := by
    by_cases hkept : ∃ r ∈ before, Kept b r
    · obtain ⟨r, hr, hk⟩ := hkept
      have hsingle := h.kept r hr hk
      have hplaces := h.places
      rw [hsingle] at hplaces ⊢
      obtain ⟨k, hrun, hiff⟩ := get_all_unknown interface hb (h.unknown r hr)
      obtain ⟨hnode, hparent⟩ := places_cons_cons hplaces
      obtain ⟨-, n, hn, -⟩ := id hk
      refine ⟨k, ?_, .inl (hiff.mpr hk), hb.parent path _ hparent ?_⟩
      · rw [find_and_run_cons, hrun]
        rfl
      · rw [← hnode, hn]
        rfl
    · have hq : Known env b path q := h.decides.resolve_right hkept
      refine ⟨false, get_all_passes hb h.unknown fun p hp hk => hkept ⟨p, hp, hk⟩, .inr hq,
        known_isSome hq⟩
  obtain ⟨f, hrun, hknown, hn⟩ := hbefore
  rw [h.places, find_and_run_append, hrun]
  change (object_find_and_run env b path _ q f).bind _ = _
  rw [get_all_known hb hn hknown htake]
  split <;> rfl

/-- Among nodes that are not kept, it is answered where something is known. -/
theorem get_all_answered (hb : Served b) (hx : ∀ s, x ≠ .callback s) (hkept : ∀ p ∈ ps, ¬ Kept b p)
    (h : find_and_run env b path (.get_all interface) ps false = .error x) :
    ∃ before q after, ps = before ++ q :: after ∧ (∀ r ∈ before, ¬ Known env b path r) ∧
      Known env b path q ∧ ¬ Takes env b (.get_all interface) q := by
  induction ps with
  | nil => cases h
  | cons p ps ih =>
    obtain ⟨hkp, hkept⟩ := forall_mem_cons.mp hkept
    by_cases hknown : Known env b path p
    · refine ⟨[], p, ps, rfl, nofun, hknown, fun htake => ?_⟩
      obtain ⟨s, hs⟩ := object_find_and_run_takes path false htake
      rw [find_and_run_cons, hs] at h
      cases h
      exact hx s rfl
    · obtain ⟨k, hk, hiff⟩ := get_all_unknown interface hb hknown
      have hfalse : k = false := Bool.eq_false_iff.mpr fun heq => hkp (hiff.mp heq)
      rw [find_and_run_cons, hk, hfalse] at h
      obtain ⟨before, q, after, rfl, hunknown, hq, htake⟩ := ih hkept h
      exact ⟨p :: before, q, after, rfl, forall_mem_cons.mpr ⟨hknown, hunknown⟩, hq, htake⟩

/-- Where GetAll is answered by the library, a node has decided. -/
theorem decided_of_answered (hb : Served b) (hx : ∀ s, x ≠ .callback s)
    (h : find_and_run env b path (.get_all interface) (places path) false = .error x) :
    ∃ before q after, Decided env b path before q after ∧ ¬ Takes env b (.get_all interface) q := by
  obtain ⟨p, ps, hplaces⟩ : ∃ p ps, places path = p :: ps := ⟨_, _, rfl⟩
  have hkept := not_kept (b := b) hplaces
  by_cases hknown : Known env b path p
  · refine ⟨[], p, ps, ⟨hplaces, nofun, nofun, .inl hknown⟩, fun htake => ?_⟩
    obtain ⟨s, hs⟩ := object_find_and_run_takes path false htake
    rw [hplaces, find_and_run_cons, hs] at h
    cases h
    exact hx s rfl
  obtain ⟨k, hk, hiff⟩ := get_all_unknown interface hb hknown
  rw [hplaces, find_and_run_cons, hk] at h
  have hp : ∀ r ∈ [p], ¬ Known env b path r := by
    intro r hr
    rwa [mem_singleton.mp hr]
  by_cases hkp : Kept b p
  -- the next node decides, as it exists
  · have htrue : k = true := hiff.mpr hkp
    rw [htrue] at h
    cases ps with
    | nil => cases h
    | cons q after =>
      refine ⟨[p], q, after, ⟨hplaces, hp, ?_, .inr ⟨p, mem_singleton_self p, hkp⟩⟩,
        fun htake => ?_⟩
      · intro r hr _
        rw [mem_singleton.mp hr]
      · obtain ⟨s, hs⟩ := object_find_and_run_takes path true htake
        change find_and_run env b path _ (q :: after) true = _ at h
        rw [find_and_run_cons, hs] at h
        cases h
        exact hx s rfl
  · have hfalse : k = false := Bool.eq_false_iff.mpr fun heq => hkp (hiff.mp heq)
    rw [hfalse] at h
    obtain ⟨before, q, after, rfl, hunknown, hq, htake⟩ := get_all_answered hb hx hkept h
    refine ⟨p :: before, q, after, ⟨hplaces, forall_mem_cons.mpr ⟨hknown, hunknown⟩, ?_,
      .inl hq⟩, htake⟩
    intro r hr hkr
    rcases mem_cons.mp hr with rfl | hr
    · exact absurd hkr hkp
    · exact absurd hkr (hkept r (mem_append_left _ hr))

/-! ## Section 5: The properties of one node -/

variable {α : Type}

/-- A list without repetitions, each of whose keys is there once. -/
theorem filter_key {κ : Type} [BEq κ] [LawfulBEq κ] {f : α → κ} {l : List α} {x : α}
    (h : (l.map f).Nodup) (hx : x ∈ l) : l.filter (fun y => f y == f x) = [x] := by
  induction l with
  | nil => cases hx
  | cons y l ih =>
    rw [map_cons, nodup_cons] at h
    rcases mem_cons.mp hx with rfl | hx
    · rw [filter_cons, if_pos (beq_iff_eq.mpr rfl), filter_eq_nil_iff.mpr]
      intro z hz heq
      exact h.1 (beq_iff_eq.mp heq ▸ mem_map_of_mem hz)
    · have hne : ¬ (f y == f x) = true := fun heq =>
        h.1 (beq_iff_eq.mp heq ▸ mem_map_of_mem hx)
      rw [filter_cons, if_neg hne, ih h.2 hx]

/-- What only one of them has. -/
theorem flatMap_only {β : Type} {g : α → List β} {l : List α} {x : α} (h : l.Nodup) (hx : x ∈ l)
    (hother : ∀ y ∈ l, y ≠ x → g y = []) : l.flatMap g = g x := by
  induction l with
  | nil => cases hx
  | cons y l ih =>
    rw [nodup_cons] at h
    rw [flatMap_cons]
    rcases mem_cons.mp hx with rfl | hx
    · rw [flatMap_eq_nil_iff.mpr, append_nil]
      intro z hz
      exact hother z (mem_cons_of_mem _ hz) fun heq => h.1 (heq ▸ hz)
    · rw [hother y mem_cons_self fun heq => h.1 (heq ▸ hx)]
      exact ih h.2 hx fun z hz => hother z (mem_cons_of_mem y hz)

theorem mem_vtables_at : c ∈ vtables_at env b path q ↔ ∃ n, b.nodes q.node = some n ∧
    c ∈ vtables b n ∧ applies env path q.require_fallback c = true := by
  unfold vtables_at
  cases b.nodes q.node with
  | none => simp
  | some n => simp

variable {signal : Bool}

theorem appended_kind (h : appended signal e = true) : e.kind = some .property := by
  unfold appended at h
  simp only [Bool.and_eq_true, beq_iff_eq] at h
  exact h.1.1.1

/-- What applies at a place is a registered vtable. -/
theorem complete_at (hb : Served b) (hc : c ∈ vtables_at env b path q) :
    ∃ x : Slot, x.Complete c.interface c.vtable := by
  obtain ⟨n, hn, hc, -⟩ := mem_vtables_at.mp hc
  obtain ⟨hs, x, hx, -, hi, hv⟩ := mem_vtables.mp hc
  obtain ⟨y, hy, hat⟩ := (hb.list _ n _ hn).mp hs
  obtain rfl := some.inj (hx.symm.trans hy)
  obtain ⟨i, v, hcomplete⟩ := hb.complete _ _ _ hx hat
  obtain rfl := some.inj (hi.symm.trans hcomplete.interface)
  obtain rfl := some.inj (hv.symm.trans hcomplete.vtable)
  exact ⟨x, hcomplete⟩

/-- The names of the properties of a registered vtable are different. -/
theorem names_nodup (hb : Served b) (hc : c ∈ vtables_at env b path q) :
    (property_names c.vtable.entries).Nodup :=
  (complete_at hb hc).elim fun _ h => h.names

theorem interface_valid (hb : Served b) (hc : c ∈ vtables_at env b path q) :
    interface_name_is_valid c.interface = true ∧ reserved_interface c.interface = false :=
  (complete_at hb hc).elim fun _ h => ⟨h.valid, h.reserved⟩

/-- What a vtable appends: each of its visible properties. -/
theorem mem_append_all {x : List UInt8 × Val} : x ∈ vtable_append_all_properties env path signal c ↔
      c.vtable.flags &&& SD_BUS_VTABLE_HIDDEN = 0 ∧ ∃ e ∈ c.vtable.entries,
        appended signal e = true ∧ x = (e.member, env.get c.slot e path) := by
  unfold vtable_append_all_properties
  by_cases hflags : c.vtable.flags &&& SD_BUS_VTABLE_HIDDEN = 0
  · rw [if_neg (by rw [hflags]; decide)]
    simp only [mem_map, mem_filter, hflags, true_and]
    constructor
    · rintro ⟨e, ⟨he, ha⟩, rfl⟩
      exact ⟨e, he, ha, rfl⟩
    · rintro ⟨e, he, ha, rfl⟩
      exact ⟨e, ⟨he, ha⟩, rfl⟩
  · simp [hflags]

section
variable (hb : Served b) (hc : c ∈ vtables_at env b path q) (he : e ∈ c.vtable.entries)
  (hvisible : Visible c e)
include hb hc he hvisible

/-- Among them, one of this name. -/
theorem append_all_filter :
    (vtable_append_all_properties env path false c).filter (fun x => x.1 == e.member) =
      [(e.member, env.get c.slot e path)] := by
  unfold vtable_append_all_properties
  rw [if_neg (by rw [hvisible.1]; decide), filter_map]
  have hnodup : ((c.vtable.entries.filter (appended false)).map (·.member)).Nodup := by
    refine (names_nodup hb hc).sublist (List.Sublist.map _ (monotone_filter_right _ ?_))
    intro v hv
    exact beq_iff_eq.mpr (appended_kind hv)
  have hmem : e ∈ c.vtable.entries.filter (appended false) :=
    mem_filter.mpr ⟨he, hvisible.2⟩
  have hfilter := filter_key hnodup hmem
  change ((c.vtable.entries.filter (appended false)).filter fun y => y.member == e.member).map _ = _
  rw [hfilter]
  rfl

/-- Of the properties that GetAll replies with, one has the name of a visible
    property of the node. -/
theorem properties_at_filter :
    (properties_at env b path c.interface q).filter (fun x => x.1 == e.member) =
      [(e.member, env.get c.slot e path)] := by
  have hne : c.interface ≠ [] := by
    intro heq
    have := (interface_valid hb hc).1
    rw [heq] at this
    revert this
    decide
  unfold properties_at
  rw [filter_flatMap]
  obtain ⟨n, hn, hcn, -⟩ := mem_vtables_at.mp hc
  have hnodup : ((vtables_at env b path q).filter (wanted c.interface)).Nodup := by
    rw [vtables_at_eq hn]
    exact ((vtables_nodup hb hn).filter _).filter _
  have hmem : c ∈ (vtables_at env b path q).filter (wanted c.interface) := by
    refine mem_filter.mpr ⟨hc, ?_⟩
    unfold wanted
    rw [beq_self_eq_true, Bool.or_true]
  rw [flatMap_only hnodup hmem, append_all_filter hb hc he hvisible]
  intro c' hc' hne'
  rw [filter_eq_nil_iff]
  intro x hx heq
  obtain ⟨hc', hw⟩ := mem_filter.mp hc'
  unfold wanted at hw
  rw [Bool.or_eq_true, beq_iff_eq, beq_iff_eq] at hw
  obtain ⟨n', hn', hcn', -⟩ := mem_vtables_at.mp hc'
  obtain rfl := some.inj (hn.symm.trans hn')
  obtain ⟨-, e', he', ha', rfl⟩ := mem_append_all.mp hx
  exact hne' (property_unique hb hn hcn hcn' (hw.resolve_left hne) he (appended_kind hvisible.2) he'
    (appended_kind ha') (beq_iff_eq.mp heq)).1

end

/-! ## Section 6: Agreement -/

variable (env b path) in
/-- The interface is registered for the path. -/
def Registered (interface : List UInt8) : Prop :=
  ∃ p ∈ places path, ∃ c ∈ vtables_at env b path p, c.interface = interface

variable (env b path) in
/-- GetAll succeeds, and has each visible property that Get reads exactly once,
    with the value that Get replies with. -/
def GetAllAgrees (interface : List UInt8) : Prop :=
  ∃ l, bus_process_object env b path (.get_all interface) = some (.properties l) ∧
    ∀ near r far c e v, Reads env b path near r far c e → c.interface = interface → Visible c e →
      bus_process_object env b path (.get interface e.member) = some (.value v) →
        l.filter (fun x => x.1 == e.member) = [(e.member, v)]

variable (env b path) in
/-- The interface has a vtable where GetAll is answered, no callback replies in
    its place, and what other vtables of the interface have farther up is
    invisible, declared nearer, or out of reach of Get. -/
structure AllAtOneNode (interface : List UInt8) (before : List Place) (q : Place)
    (after : List Place) : Prop extends Decided env b path before q after where
  untaken : ¬ Takes env b (.get_all interface) q
  here : ∃ c ∈ vtables_at env b path q, c.interface = interface
  rest : ∀ near r far, Objects.places path = near ++ r :: far → before.length < near.length →
    ∀ c ∈ vtables_at env b path r, c.interface = interface → ∀ e ∈ c.vtable.entries, Visible c e →
      (∃ p ∈ near, Declares env b path interface e.member p) ∨
        ∃ p ∈ near ++ [r], Takes env b (.get interface e.member) p

/-- The same list, split at two places. -/
theorem split_lt {l₁ l₂ l₃ l₄ : List α} {x y : α} (h : l₁ ++ x :: l₂ = l₃ ++ y :: l₄) :
    (l₁.length < l₃.length ∧ x ∈ l₃) ∨ (l₁ = l₃ ∧ x = y) ∨ (l₃.length < l₁.length ∧ y ∈ l₁) := by
  rcases append_eq_append_iff.mp h with ⟨m, rfl, hm⟩ | ⟨m, rfl, hm⟩
  · cases m with
    | nil =>
      obtain ⟨rfl, _⟩ := cons.inj hm
      exact .inr (.inl ⟨(append_nil _).symm, rfl⟩)
    | cons z m =>
      obtain ⟨rfl, _⟩ := cons.inj hm
      exact .inl ⟨by simp, by simp⟩
  · cases m with
    | nil =>
      obtain ⟨rfl, _⟩ := cons.inj hm
      exact .inr (.inl ⟨append_nil _, rfl⟩)
    | cons z m =>
      obtain ⟨rfl, _⟩ := cons.inj hm
      exact .inr (.inr ⟨by simp, by simp⟩)

theorem visible_kind (h : Visible c e) : e.kind = some .property := appended_kind h.2

/-- If GetAll is answered from all that Get reads, they agree. -/
theorem agrees_of_one_node (hb : Served b) (h : AllAtOneNode env b path interface before q after) :
    GetAllAgrees env b path interface := by
  obtain ⟨c0, hc0, hi0⟩ := h.here
  have hany : (vtables_at env b path q).any (wanted interface) = true := by
    refine any_eq_true.mpr ⟨c0, hc0, ?_⟩
    unfold wanted
    rw [hi0, beq_self_eq_true, Bool.or_true]
  refine ⟨properties_at env b path interface q, ?_, ?_⟩
  · rw [bus_process_object_iff (fun _ _ heq => by cases heq) (fun _ _ heq => by cases heq),
      get_all_decided hb h.toDecided h.untaken, hany, Bool.or_true, if_pos rfl]
  · rintro near r far c e v hreads rfl hvisible hget
    obtain ⟨rfl, htake⟩ := (get_reads hb hreads).mp hget
    rcases split_lt (h.places.symm.trans hreads.places) with ⟨hlt, hq⟩ | ⟨rfl, rfl⟩ | ⟨_, hr⟩
    -- it is read farther up
    · rcases h.rest near r far hreads.places hlt c hreads.vtable rfl e hreads.entry hvisible with
        ⟨p, hp, hdecl⟩ | ⟨p, hp, htakes⟩
      · exact absurd hdecl (hreads.nearest p hp)
      · exact absurd htakes (htake p hp)
    · exact properties_at_filter hb hreads.vtable hreads.entry hvisible
    -- nothing is known nearer
    · refine absurd (.inr fun hnil => ?_) (h.unknown r hr)
      have := hreads.vtable
      rw [hnil] at this
      cases this

/-- If they agree, it is. -/
theorem one_node_of_agrees (hb : Served b) (hreg : Registered env b path interface)
    (h : GetAllAgrees env b path interface) :
    ∃ before q after, AllAtOneNode env b path interface before q after := by
  obtain ⟨l, hall, hagree⟩ := h
  rw [bus_process_object_iff (fun _ _ heq => by cases heq) (fun _ _ heq => by cases heq)] at hall
  obtain ⟨before, q, after, hdecided, htake⟩ :=
    decided_of_answered hb (fun _ heq => by cases heq) hall
  rw [get_all_decided hb hdecided htake] at hall
  obtain ⟨_, _, c0, hc0, hi0⟩ := hreg
  obtain ⟨hvalid, hreserved⟩ := interface_valid hb hc0
  rw [hi0] at hvalid hreserved
  have hne : interface ≠ [] := by
    rintro rfl
    revert hvalid
    decide
  have hbuiltin : builtin_interface interface = false := by
    unfold reserved_interface at hreserved
    unfold builtin_interface PROPERTIES
    simp only [Bool.or_eq_false_iff] at hreserved ⊢
    exact ⟨⟨hreserved.1.1.1, hreserved.1.2⟩, hreserved.1.1.2⟩
  rw [beq_eq_false_iff_ne.mpr hne, hbuiltin, Bool.false_or] at hall
  split at hall
  · rename_i hany
    cases hall
    obtain ⟨c, hc, hw⟩ := any_eq_true.mp hany
    unfold wanted at hw
    rw [beq_eq_false_iff_ne.mpr hne, Bool.false_or, beq_iff_eq] at hw
    refine ⟨before, q, after, hdecided, htake, ⟨c, hc, hw⟩, ?_⟩
    rintro near r far hplaces hlt c' hc' rfl e he hvisible
    by_contra hnot
    rw [not_or] at hnot
    have hreads : Reads env b path near r far c' e :=
      ⟨hplaces, fun p hp hdecl => hnot.1 ⟨p, hp, hdecl⟩, hc', he, visible_kind hvisible⟩
    have hget : bus_process_object env b path (.get c'.interface e.member) =
        some (.value (env.get c'.slot e path)) :=
      (get_reads hb hreads).mpr ⟨rfl, fun p hp htakes => hnot.2 ⟨p, hp, htakes⟩⟩
    have hfilter := hagree near r far c' e _ hreads rfl hvisible hget
    -- the reply has it, so it is declared where GetAll is answered
    have hmem : (e.member, env.get c'.slot e path) ∈ properties_at env b path c'.interface q := by
      have : (e.member, env.get c'.slot e path) ∈ [(e.member, env.get c'.slot e path)] :=
        mem_singleton_self _
      rw [← hfilter] at this
      exact (mem_filter.mp this).1
    obtain ⟨d, hd, hx⟩ := mem_flatMap.mp hmem
    obtain ⟨hd, hwd⟩ := mem_filter.mp hd
    unfold wanted at hwd
    rw [beq_eq_false_iff_ne.mpr hne, Bool.false_or, beq_iff_eq] at hwd
    obtain ⟨-, e', he', ha', heq⟩ := mem_append_all.mp hx
    rw [Prod.mk.injEq] at heq
    have hdecl : Declares env b path c'.interface e.member q :=
      ⟨d, hd, hwd, e', he', appended_kind ha', heq.1.symm⟩
    rcases split_lt (hdecided.places.symm.trans hplaces) with ⟨_, hq⟩ | ⟨rfl, _⟩ | ⟨hlt', _⟩
    · exact hnot.1 ⟨q, hq, hdecl⟩
    · exact absurd hlt (Nat.lt_irrefl _)
    · omega
  · cases hall

/-- GetAll agrees with Get if and only if the node where it is answered has all
    that Get reads of the interface. -/
theorem get_all_agrees_iff (hb : Served b) (hreg : Registered env b path interface) :
    GetAllAgrees env b path interface ↔
      ∃ before q after, AllAtOneNode env b path interface before q after :=
  ⟨one_node_of_agrees hb hreg, fun ⟨_, _, _, h⟩ => agrees_of_one_node hb h⟩

end run

/-! ## Section 7: An object in two parts -/

/-- A vtable with one property. -/
def one_property (address : Nat) : Vtable where
  address := address
  start := true
  flags := 0
  element_size := VTABLE_ELEMENT_SIZE_221
  vtable_format_reference := false
  features := 0
  entries := [⟨.property, 0, ascii "P", ascii "u", [], [], false, true, false⟩]

/-- `/a` has a vtable of the interface `x.A`, and the root one of `x.B`, as a
    fallback. -/
def two_parts : Objects :=
  ((ObjectCall.add_vtable 20 false true root (ascii "x.B") (one_property 1)).run
    { ((ObjectCall.add_vtable 20 false false (ascii "/a") (ascii "x.A") (one_property 0)).run
      { Objects.new with memory := 20 }).2 with memory := 20 }).2

/-- Callbacks that take every path, and never reply. -/
def one_value : Callbacks Nat := ⟨fun _ _ => true, fun _ _ _ => 7, fun _ _ => false, fun _ _ => .ok⟩

theorem two_parts_reachable : Reachable (object_system.restrict Clean) two_parts := by
  refine .step (a := .add_vtable 20 false true root (ascii "x.B") (one_property 1))
    (.step (a := .add_vtable 20 false false (ascii "/a") (ascii "x.A") (one_property 0)) (.init rfl)
      ⟨?_, ?_, rfl⟩) ⟨?_, ?_, rfl⟩
  · intro path hpath
    have hsome : (ObjectCall.add_vtable 20 false false (ascii "/a") (ascii "x.A")
      (one_property 0)).node_path = some (ascii "/a") := by decide +kernel
    obtain rfl : ascii "/a" = path := some.inj (hsome.symm.trans hpath)
    unfold AllOrNone
    decide +kernel
  · decide +kernel
  · intro path hpath
    have hsome : (ObjectCall.add_vtable 20 false true root (ascii "x.B")
      (one_property 1)).node_path = some root := by decide +kernel
    obtain rfl : root = path := some.inj (hsome.symm.trans hpath)
    unfold AllOrNone
    decide +kernel
  · decide +kernel

theorem two_parts_served : Served two_parts := served_of_reachable two_parts_reachable

theorem two_parts_registered : Registered one_value two_parts (ascii "/a") (ascii "x.A") ∧
    Registered one_value two_parts (ascii "/a") (ascii "x.B") := by
  refine ⟨⟨⟨ascii "/a", false⟩, ?_⟩, ⟨⟨root, true⟩, ?_⟩⟩
  · decide +kernel
  · decide +kernel

/-- For the interface of `/a` itself. -/
theorem get_all_agrees_two_parts : GetAllAgrees one_value two_parts (ascii "/a") (ascii "x.A") ↔
    ∃ before q after, AllAtOneNode one_value two_parts (ascii "/a") (ascii "x.A") before q after :=
  get_all_agrees_iff two_parts_served two_parts_registered.1

/-- For that of the root, Get replies with the value of the property, but GetAll
    does not know the interface. -/
theorem get_all_unknown_fallback :
    bus_process_object one_value two_parts (ascii "/a") (.get (ascii "x.B") (ascii "P")) =
        some (.value 7) ∧
      bus_process_object one_value two_parts (ascii "/a") (.get_all (ascii "x.B")) =
        some (.unknown_interface (ascii "x.B")) := by
  decide +kernel

theorem get_all_not_get : ¬ ∀ (env : Callbacks Nat) (b : Objects) (path : Path)
    (interface : List UInt8), Served b → Registered env b path interface →
      GetAllAgrees env b path interface := by
  intro h
  obtain ⟨l, hall, -⟩ := h one_value two_parts (ascii "/a") (ascii "x.B") two_parts_served
    two_parts_registered.2
  rw [get_all_unknown_fallback.2] at hall
  cases hall

end SdCompat.Objects
