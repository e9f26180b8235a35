import Mathlib.Data.List.Find
import SdCompat.SdBus.ObjectsRun

/-! # The vtables of a node (bus-objects.c)

    What the code that walks over the vtables of a node relies on: each of them
    has its interface and its elements, none has an interface that is reserved,
    no two properties of one have a name in common, and those of one interface
    stand next to each other.

    Taking something out of the object tree makes the lists shorter
    (`Shrinks`); only `add_object_vtable_internal` puts a vtable in
    (`Attached`).
-/

namespace SdCompat.Objects

open Bus Call Transition List

/-! ## Section 1: Lists in groups -/

/-- What has the same key stands next to each other. -/
def Grouped {α κ : Type} (f : α → κ) (l : List α) : Prop :=
  ∀ u v w, [u, v, w].Sublist l → f u = f w → f v = f u

section grouped
variable {α κ : Type} {f g : α → κ} {x y s : α} {l l₁ l₂ : List α} {k : κ}

theorem grouped_nil : Grouped f [] := by
  intro u v w h
  cases sublist_nil.mp h

theorem Grouped.sublist (h : Grouped f l₂) (hs : l₁.Sublist l₂) : Grouped f l₁ :=
  fun u v w hl => h u v w (hl.trans hs)

theorem Grouped.congr (h : Grouped f l) (hfg : ∀ x ∈ l, f x = g x) : Grouped g l := by
  intro u v w hl hkey
  have hu := hfg u (hl.subset (by simp))
  have hv := hfg v (hl.subset (by simp))
  have hw := hfg w (hl.subset (by simp))
  rw [← hu, ← hw] at hkey
  rw [← hu, ← hv]
  exact h u v w hl hkey

/-- The same, of what follows something of the key. -/
theorem Grouped.next (h : Grouped f (x :: y :: l)) {z : α} (hz : z ∈ l) (hkey : f z = f x) :
    f y = f x :=
  h x y z (.cons_cons x (.cons_cons y (singleton_sublist.mpr hz))) hkey.symm

/-- One more is put behind the last of its key, or at the end. -/
theorem Grouped.insert (h : Grouped f (l₁ ++ l₂)) (hs : f s = k) (hl₂ : ∀ x ∈ l₂, f x ≠ k)
    (hl₁ : (∃ l x, l₁ = l ++ [x] ∧ f x = k) ∨ l₂ = [] ∧ ∀ x ∈ l₁, f x ≠ k) :
    Grouped f (l₁ ++ s :: l₂) := by
  intro u v w hsub hkey
  obtain ⟨a, b, hab, ha, hb⟩ := sublist_append_iff.mp hsub
  rcases sublist_cons_iff.mp hb with hb | ⟨b', rfl, hb'⟩
  -- the new one is not among them
  · refine h u v w ?_ hkey
    rw [hab]
    exact ha.append hb
  -- it is the first, the second or the third of them
  match a, hab with
  | [], hab =>
    obtain ⟨rfl, rfl⟩ := cons.inj hab
    exact absurd (hkey.symm.trans hs) (hl₂ w (hb'.subset (by simp)))
  | [_], hab =>
    obtain ⟨rfl, rfl, rfl⟩ := hab
    have hw := hl₂ w (hb'.subset (by simp))
    rcases hl₁ with ⟨l, x, rfl, hx⟩ | ⟨rfl, _⟩
    · rcases mem_append.mp (ha.subset (mem_singleton_self u)) with hu | hu
      · have := h u x w (Sublist.append (Sublist.append
          (singleton_sublist.mpr hu) (.refl [x])) hb') hkey
        exact absurd (hkey.symm.trans (this.symm.trans hx)) hw
      · obtain rfl := mem_singleton.mp hu
        exact absurd (hkey.symm.trans hx) hw
    · cases sublist_nil.mp hb'
  | [_, _], hab =>
    obtain ⟨rfl, rfl, rfl, _⟩ := hab
    have hu : f u = k := hkey.trans hs
    rcases hl₁ with ⟨l, x, rfl, hx⟩ | ⟨_, hl₁⟩
    · obtain ⟨c, d, hcd, hc, hd⟩ := sublist_append_iff.mp ha
      rcases sublist_cons_iff.mp hd with hd | ⟨d', rfl, hd'⟩
      · obtain rfl := sublist_nil.mp hd
        rw [append_nil] at hcd
        have := h u v x (Sublist.trans (Sublist.append (hcd ▸ hc) (.refl [x]))
          (sublist_append_left _ l₂)) (hu.trans hx.symm)
        exact this
      · obtain rfl := sublist_nil.mp hd'
        obtain ⟨rfl, rfl⟩ : c = [u] ∧ v = x := by
          match c, hcd with
          | [_], hcd =>
            obtain ⟨rfl, rfl⟩ := hcd
            exact ⟨rfl, rfl⟩
          | [], hcd => simp at hcd
          | _ :: _ :: _, hcd => simp at hcd
        exact hx.trans hu.symm
    · exact absurd hu (hl₁ u (ha.subset (by simp)))
  | _ :: _ :: _ :: _, hab =>
    simp at hab

end grouped

/-! ## Section 2: The list of vtables of a node -/

/-- The interface of a slot. -/
def interface_of (b : Objects) (s : SlotId) : Option (List UInt8) := (b.slots s).bind (·.interface)

/-- `n->vtables`, for the node at this path. -/
def vtable_list (b : Objects) (q : Path) : List SlotId :=
  match b.nodes q with
  | none => []
  | some n => n.list .node_vtable

/-- The members of the properties among these elements. -/
def property_names (entries : List VtableEntry) : List (List UInt8) :=
  (entries.filter fun v => v.kind == some .property).map (·.member)

/-- A slot has what a registered vtable has. -/
structure Slot.Complete (x : Slot) (i : List UInt8) (v : Vtable) : Prop where
  interface : x.interface = some i
  vtable : x.vtable = some v
  valid : interface_name_is_valid i = true
  reserved : reserved_interface i = false
  names : (property_names v.entries).Nodup

/-- What the walks over the vtables of a node rely on. -/
structure Vtables (b : Objects) : Prop where
  complete : ∀ s x q, b.slots s = some x → x.At .node_vtable q → ∃ i v, x.Complete i v
  grouped : ∀ q, Grouped (interface_of b) (vtable_list b q)

section insertion
variable {after s : SlotId} {l l₁ l₂ : List SlotId} {b b' : Objects} {interface : List UInt8}
  {vtable : Vtable}

theorem list_insert_after_append (h : after ∉ l₁) :
    list_insert_after after s (l₁ ++ after :: l₂) = l₁ ++ after :: s :: l₂ := by
  induction l₁ with
  | nil => exact if_pos rfl
  | cons t l₁ ih =>
    obtain ⟨ht, hl1⟩ := ne_and_not_mem_of_not_mem_cons h
    rw [cons_append, list_insert_after, if_neg (Ne.symm ht), ih hl1]
    rfl

/-- The last one that the test accepts, and what is behind it. -/
theorem last_of_find {p : SlotId → Bool} (h : l.reverse.find? p = some after) :
    ∃ l₁ l₂, l = l₁ ++ after :: l₂ ∧ p after = true ∧ ∀ t ∈ l₂, p t = false := by
  obtain ⟨hp, as, bs, has, hnot⟩ := find?_eq_some_iff_append.mp h
  refine ⟨bs.reverse, as.reverse, ?_, hp, fun t ht => ?_⟩
  · rw [← reverse_reverse l, has, reverse_append, reverse_cons, append_assoc]
    rfl
  · have := hnot t (mem_reverse.mp ht)
    rwa [Bool.not_eq_true'] at this

/-- A vtable that is put behind the last one of its interface keeps the list in
    groups. -/
theorem grouped_insert_vtable {f : SlotId → Option (List UInt8)} {k : Option (List UInt8)}
    (h : Grouped f l) (hnodup : l.Nodup) (hs : f s = k) :
    Grouped f (insert_vtable (l.reverse.find? fun t => f t == k) s l) := by
  unfold insert_vtable
  cases hfind : l.reverse.find? fun t => f t == k with
  | some after =>
    obtain ⟨l₁, l₂, rfl, hafter, hl2⟩ := last_of_find hfind
    have hnot : after ∉ l₁ := fun hmem =>
      (nodup_append.mp hnodup).2.2 after hmem after mem_cons_self rfl
    rw [Option.some_or]
    dsimp only
    rw [list_insert_after_append hnot, append_cons]
    rw [append_cons] at h
    refine h.insert hs (fun x hx => ?_) (.inl ⟨l₁, after, rfl, beq_iff_eq.mp hafter⟩)
    have := hl2 x hx
    rwa [beq_eq_false_iff_ne] at this
  | none =>
    have hnone : ∀ x ∈ l, f x ≠ k := by
      intro x hx heq
      have := find?_eq_none.mp hfind x (mem_reverse.mpr hx)
      exact this (beq_iff_eq.mpr heq)
    rw [Option.none_or]
    cases hlast : l.getLast? with
    | none =>
      obtain rfl := getLast?_eq_none_iff.mp hlast
      have h' : Grouped f ([] ++ []) := h
      exact h'.insert hs (fun x hx => by cases hx) (.inr ⟨rfl, hnone⟩)
    | some last =>
      obtain ⟨l₁, rfl⟩ := getLast?_eq_some_iff.mp hlast
      have hnot : last ∉ l₁ := fun hmem =>
        (nodup_append.mp hnodup).2.2 last hmem last (mem_singleton_self last) rfl
      dsimp only
      rw [list_insert_after_append hnot, append_cons l₁ last [s]]
      rw [← append_nil (l₁ ++ [last])] at h
      exact h.insert hs (fun x hx => by cases hx) (.inr ⟨rfl, hnone⟩)

/-- The last one of the interface is found, and no object is changed. -/
theorem find_existing_ok {fallback : Bool} {existing r : Option SlotId}
    (h : find_existing interface vtable fallback l existing b = (.ok r, b')) :
    b' = b ∧ r = (l.reverse.find? fun t => interface_of b t == some interface).or existing := by
  induction l generalizing existing with
  | nil =>
    cases h
    exact ⟨rfl, rfl⟩
  | cons i l ih =>
    obtain ⟨x, b₁, hslot, h⟩ := of_bind_ok h
    obtain ⟨hb, hx⟩ : b = b₁ ∧ b.slots i = some x := by
      unfold slot at hslot
      rw [bind_run_ok (show Call.get b = (.ok b, b) from rfl)] at hslot
      cases hi : b.slots i with
      | none =>
        rw [hi] at hslot
        cases hslot
      | some y =>
        rw [hi] at hslot
        cases hslot
        exact ⟨rfl, rfl⟩
    subst hb
    obtain ⟨-, h⟩ := of_check_bind_ok h
    have hof : interface_of b i = x.interface := by
      unfold interface_of
      rw [hx]
      rfl
    rw [reverse_cons, find?_append]
    by_cases hi : x.interface = some interface
    · rw [if_pos hi] at h
      obtain ⟨-, h⟩ := of_check_bind_ok h
      obtain ⟨rfl, rfl⟩ := ih h
      refine ⟨rfl, ?_⟩
      rw [find?_singleton, hof, hi, beq_self_eq_true, if_pos rfl, Option.or_assoc, Option.some_or]
    · rw [if_neg hi] at h
      obtain ⟨rfl, rfl⟩ := ih h
      refine ⟨rfl, ?_⟩
      rw [find?_singleton, hof, beq_eq_false_iff_ne.mpr hi, if_neg (by decide), Option.or_none]

end insertion

/-! ## Section 3: The members of a vtable that is put in -/

section members
variable {b b' : Objects} {s : SlotId} {path : Path} {interface : List UInt8} {vtable : Vtable}
  {entries : List VtableEntry} {v : VtableEntry}

variable {u : PUnit}

theorem alloc_ok (h : alloc b = (.ok u, b')) : b'.members = b.members := by
  unfold alloc at h
  rw [get_bind_run] at h
  split at h
  · cases h
  · cases h
    rfl

/-- What is put into a table has a key that is not in it yet. -/
theorem set_put_ok {k : MemberKind} {m : BusVTableMember} (h : set_put k m b = (.ok u, b')) :
    (∀ x ∈ b.members k, x.key ≠ m.key) ∧ b'.members k = m :: b.members k ∧
      ∀ l, l ≠ k → b'.members l = b.members l := by
  obtain ⟨_, b₁, h1, h⟩ := of_bind_ok h
  obtain ⟨hnew, h⟩ := of_check_bind_ok h
  obtain ⟨_, b2, h2, h⟩ := of_bind_ok h
  have hb1 := alloc_ok h1
  have hb2 := (alloc_ok h2).trans hb1
  cases h
  refine ⟨fun x hx heq => ?_, ?_, fun l hl => ?_⟩
  · rw [Bool.not_eq_true', any_eq_false] at hnew
    exact hnew x (hb1 ▸ hx) (beq_iff_eq.mpr heq)
  · change (if k = k then m :: b2.members k else b2.members k) = _
    rw [if_pos rfl, hb2]
  · change (if l = k then m :: b2.members k else b2.members l) = _
    rw [if_neg hl, hb2]

theorem property_names_of_ne (h : v.kind ≠ some .property) :
    property_names (v :: entries) = property_names entries := by
  unfold property_names
  rw [filter_cons, if_neg fun heq => h (beq_iff_eq.mp heq)]

theorem property_names_of_eq (h : v.kind = some .property) :
    property_names (v :: entries) = v.member :: property_names entries := by
  unfold property_names
  rw [filter_cons, if_pos (beq_iff_eq.mpr h)]
  rfl

/-- Where a property of this name is in the table, no other one goes in. -/
def Apart (b : Objects) (path : Path) (interface : List UInt8) (names : List (List UInt8)) : Prop :=
  names.Nodup ∧ ∀ p ∈ names, ∀ x ∈ b.members .property, x.key ≠ (path, interface, p)

theorem Apart.of_put {names : List (List UInt8)} (h : Apart b' path interface names)
    (hput : b'.members .property = ⟨s, path, interface, v.member, v⟩ :: b.members .property)
    (hnew : ∀ x ∈ b.members .property, x.key ≠ (path, interface, v.member)) :
    Apart b path interface (v.member :: names) := by
  obtain ⟨hnodup, hkeys⟩ := h
  have hfirst : ∀ p ∈ names, v.member ≠ p := by
    rintro p hp rfl
    exact hkeys _ hp _ (hput ▸ mem_cons_self) rfl
  refine ⟨nodup_cons.mpr ⟨fun hmem => hfirst _ hmem rfl, hnodup⟩, ?_⟩
  intro p hp x hx
  rcases mem_cons.mp hp with rfl | hp
  · exact hnew x hx
  · exact hkeys p hp x (hput ▸ mem_cons_of_mem _ hx)

/-- The properties of a vtable that is put in have different names. -/
theorem add_members_ok : ∀ {entries : List VtableEntry} {names : List (List UInt8)}
    {b : Objects}, add_members s path interface vtable entries names b = (.ok u, b') →
      Apart b path interface (property_names entries) := by
  intro entries
  induction entries with
  | nil =>
    intro names b _
    exact ⟨nodup_nil, fun p hp => by cases hp⟩
  | cons v entries ih =>
    intro names b h
    have hproperty : v.kind = some .property → ∀ {b₁ : Objects} {u : PUnit},
        set_put .property ⟨s, path, interface, v.member, v⟩ b = (.ok u, b₁) →
        Apart b₁ path interface (property_names entries) →
        Apart b path interface (property_names (v :: entries)) := by
      intro hk b₁ u hput hrest
      obtain ⟨hnew, hcons, _⟩ := set_put_ok hput
      rw [property_names_of_eq hk]
      exact hrest.of_put hcons hnew
    unfold add_members at h
    cases htype : v.type with
    | method =>
      have hkind : v.kind = some .method := by rw [VtableEntry.kind, htype]
      rw [htype] at h
      cases hvalid : method_is_valid vtable v names with
      | none =>
        rw [hvalid] at h
        cases h
      | some rest =>
        rw [hvalid] at h
        obtain ⟨_, b₁, hput, h⟩ := of_bind_ok h
        obtain ⟨_, _, hsame⟩ := set_put_ok hput
        rw [property_names_of_ne (by rw [hkind]; decide)]
        obtain ⟨hnodup, hkeys⟩ := ih h
        rw [hsame .property (by decide)] at hkeys
        exact ⟨hnodup, hkeys⟩
    | signal =>
      have hkind : v.kind = none := by rw [VtableEntry.kind, htype]
      rw [htype] at h
      rw [property_names_of_ne (by rw [hkind]; decide)]
      cases hvalid : signal_is_valid vtable v names with
      | none =>
        rw [hvalid] at h
        cases h
      | some rest =>
        rw [hvalid] at h
        exact ih h
    | property =>
      have hkind : v.kind = some .property := by rw [VtableEntry.kind, htype]
      rw [htype] at h
      obtain ⟨_, h⟩ := of_check_bind_ok h
      obtain ⟨_, h⟩ := of_check_bind_ok h
      obtain ⟨_, b₁, hput, h⟩ := of_bind_ok h
      exact hproperty hkind hput (ih h)
    | writable_property =>
      have hkind : v.kind = some .property := by rw [VtableEntry.kind, htype]
      rw [htype] at h
      obtain ⟨_, h⟩ := of_check_bind_ok h
      obtain ⟨_, h⟩ := of_check_bind_ok h
      obtain ⟨_, b₁, hput, h⟩ := of_bind_ok h
      exact hproperty hkind hput (ih h)
    | other =>
      rw [htype] at h
      cases h

end members

/-! ## Section 4: What is taken out -/

/-- What was registered before, or less: a vtable that is registered was, with
    the same interface and elements, and the lists have become no longer. One
    slot may be in between. -/
structure Shrinks (b₀ : Objects) (between : Option SlotId) (b : Objects) : Prop where
  slots : ∀ t x q, between ≠ some t → b.slots t = some x → x.At .node_vtable q →
    ∃ y, b₀.slots t = some y ∧ y.At .node_vtable q ∧ y.interface = x.interface ∧ y.vtable = x.vtable
  lists : ∀ q, (vtable_list b q).Sublist (vtable_list b₀ q)

section shrinks
variable {b₀ b b' : Objects} {path q : Path} {s : SlotId} {x : Slot} {e : Option SlotId}

theorem Shrinks.refl (b : Objects) : Shrinks b none b :=
  ⟨fun _ x _ _ hx hat => ⟨x, hx, hat, rfl, rfl⟩, fun _ => .refl _⟩

theorem Shrinks.congr (h : Shrinks b₀ e b) (hslots : b'.slots = b.slots)
    (hnodes : b'.nodes = b.nodes) : Shrinks b₀ e b' := by
  refine ⟨fun t x q ht hx => h.slots t x q ht (hslots ▸ hx), fun q => ?_⟩
  unfold vtable_list at *
  rw [hnodes]
  exact h.lists q

theorem Shrinks.weaken (h : Shrinks b₀ none b) (e : Option SlotId) : Shrinks b₀ e b :=
  ⟨fun t x q _ => h.slots t x q nofun, h.lists⟩

/-- The slot that was in between is registered no more. -/
theorem Shrinks.close (h : Shrinks b₀ (some s) b)
    (hs : ∀ x q, b.slots s = some x → ¬ x.At .node_vtable q) : Shrinks b₀ none b := by
  refine ⟨fun t x q _ hx hat => ?_, h.lists⟩
  by_cases ht : t = s
  · subst ht
    exact absurd hat (hs x q hx)
  · exact h.slots t x q (fun heq => ht (Option.some.inj heq).symm) hx hat

/-- Another slot: one that is registered only if the one before it was, with
    the same interface and elements. -/
theorem Shrinks.set_slot (h : Shrinks b₀ e b) {o : Option Slot}
    (ho : ∀ x q, o = some x → e ≠ some s → x.At .node_vtable q → ∃ y, b.slots s = some y ∧
      y.At .node_vtable q ∧ y.interface = x.interface ∧ y.vtable = x.vtable) :
    Shrinks b₀ e (b.set_slot s o) := by
  refine ⟨fun t x q ht hx hat => ?_, h.lists⟩
  by_cases hts : t = s
  · subst hts
    rw [set_slot_self] at hx
    obtain ⟨y, hy, haty, hi, hv⟩ := ho x q hx ht hat
    obtain ⟨z, hz, hatz, hiz, hvz⟩ := h.slots t y q ht hy haty
    exact ⟨z, hz, hatz, hiz.trans hi, hvz.trans hv⟩
  · rw [set_slot_of_ne hts] at hx
    exact h.slots t x q ht hx hat

/-- Another node, whose list is no longer. -/
theorem Shrinks.set_node (h : Shrinks b₀ e b) {o : Option BusNode}
    (ho : ∀ n, o = some n → (n.list .node_vtable).Sublist (vtable_list b path)) :
    Shrinks b₀ e (b.set_node path o) := by
  refine ⟨h.slots, fun q => ?_⟩
  have hq := h.lists q
  unfold vtable_list Objects.set_node at *
  dsimp only
  by_cases hqp : q = path
  · subst hqp
    rw [if_pos rfl]
    cases o with
    | none => exact nil_sublist _
    | some n => exact (ho n rfl).trans hq
  · rw [if_neg hqp]
    exact hq

theorem shrinks_modify {g : Objects → Objects} (hslots : ∀ b, (g b).slots = b.slots)
    (hnodes : ∀ b, (g b).nodes = b.nodes) : Keeps (Shrinks b₀ e) (Call.modify g) :=
  keeps_modify fun b h => h.congr (hslots b) (hnodes b)

theorem shrinks_alloc : Keeps (Shrinks b₀ e) alloc := by
  refine keeps_bind keeps_get fun b => keeps_ite (keeps_fail _) ?_
  exact shrinks_modify (fun _ => rfl) fun _ => rfl

variable {E : Objects → Prop} {α : Type}

/-- A node that has been freed is not looked at. -/
theorem holds_node_bind {Q : α → Objects → Prop} {f : BusNode → Call Objects α}
    (h : ∀ n, b.nodes path = some n → Holds (f n) b Q E) : Holds (node path >>= f) b Q E := by
  refine holds_bind (R := fun n b' => b.nodes path = some n ∧ b = b') (holds_get_bind ?_) ?_
  · cases hn : b.nodes path with
    | none => exact holds_abort
    | some n => exact holds_pure ⟨rfl, rfl⟩
  · rintro n _ ⟨hn, rfl⟩
    exact h n hn

theorem shrinks_update_node {f : BusNode → BusNode}
    (hf : ∀ n, ((f n).list .node_vtable).Sublist (n.list .node_vtable)) :
    Keeps (Shrinks b₀ e) (update_node path f) := by
  intro b h
  refine holds_node_bind fun n hn => holds_modify (h.set_node ?_)
  rintro _ ⟨⟩
  unfold vtable_list
  rw [hn]
  exact hf n

/-- A slot keeps what it has as a registered vtable. -/
theorem shrinks_update_slot {f : Slot → Slot} (hf : ∀ x q, e ≠ some s → (f x).At .node_vtable q →
      x.At .node_vtable q ∧ x.interface = (f x).interface ∧ x.vtable = (f x).vtable) :
    Keeps (Shrinks b₀ e) (update_slot s f) := by
  intro b h
  refine holds_slot_bind fun x hx => holds_modify (h.set_slot ?_)
  rintro _ q ⟨⟩ he hat
  obtain ⟨hatx, hi, hv⟩ := hf x q he hat
  exact ⟨x, hx, hatx, hi, hv⟩

variable {a : Option α} {f : α → Call Objects PUnit}

theorem shrinks_if_some (hf : ∀ x, Keeps (Shrinks b₀ e) (f x)) :
    Keeps (Shrinks b₀ e) (if_some a f) := by
  cases a with
  | none => exact keeps_pure _
  | some x => exact hf x

theorem shrinks_node_allocate (fuel : Nat) : ∀ path,
    Keeps (Shrinks b₀ e) (bus_node_allocate_at fuel path) := by
  induction fuel with
  | zero => exact fun _ => keeps_abort
  | succ fuel ih =>
    intro path
    refine keeps_bind keeps_get fun b => keeps_ite (keeps_pure _) ?_
    refine keeps_bind (keeps_when (keeps_bind shrinks_alloc fun _ =>
      shrinks_modify (fun _ => rfl) fun _ => rfl)) fun _ => ?_
    refine keeps_bind shrinks_alloc fun _ => keeps_bind (keeps_assert _) fun _ => ?_
    refine keeps_bind (shrinks_if_some ih) fun _ => keeps_bind shrinks_alloc fun _ =>
      keeps_bind shrinks_alloc fun _ => keeps_bind (keeps_modify fun b h => ?_) fun _ => ?_
    · refine h.set_node ?_
      rintro _ ⟨⟩
      exact nil_sublist _
    · exact shrinks_if_some fun parent => shrinks_update_node fun n => .refl _

theorem shrinks_node_gc (fuel : Nat) : ∀ path, Keeps (Shrinks b₀ e) (bus_node_gc_at fuel path) := by
  induction fuel with
  | zero => exact fun _ => keeps_abort
  | succ fuel ih =>
    intro path b h
    refine holds_node_bind fun n hn => holds_when (fun _ => ?_) fun _ => h
    refine shrinks_if_some (fun parent => ?_) _ (h.set_node fun n hn => by cases hn)
    exact keeps_bind (shrinks_update_node fun n => .refl _) fun _ => ih parent

variable {interface : List UInt8}

theorem shrinks_remove_members (entries : List VtableEntry) :
    Keeps (Shrinks b₀ e) (entries.forM (remove_member path interface)) := by
  induction entries with
  | nil => exact keeps_pure _
  | cons v entries ih =>
    refine keeps_bind ?_ fun _ => ih
    unfold remove_member
    split
    · exact keeps_pure _
    · exact shrinks_modify (fun _ => rfl) fun _ => rfl

theorem noerr_update_node (f : BusNode → BusNode) : NoErr (update_node path f) := by
  refine noerr_bind (noerr_bind noerr_get fun b => ?_) fun n => noerr_modify _
  cases b.nodes path with
  | none => exact noerr_abort
  | some n => exact noerr_pure n

theorem noerr_slot (s : SlotId) : NoErr (slot s) := by
  refine noerr_bind noerr_get fun b => ?_
  cases b.slots s with
  | none => exact noerr_abort
  | some x => exact noerr_pure x

theorem noerr_if_some (hf : ∀ x, NoErr (f x)) : NoErr (if_some a f) := by
  cases a with
  | none => exact noerr_pure _
  | some x => exact hf x

theorem noerr_node_gc (fuel : Nat) : ∀ path, NoErr (bus_node_gc_at fuel path) := by
  induction fuel with
  | zero => exact fun _ => noerr_abort
  | succ fuel ih =>
    intro path
    refine noerr_bind (noerr_bind noerr_get fun b => ?_) fun n => noerr_when ?_
    · cases b.nodes path with
      | none => exact noerr_abort
      | some n => exact noerr_pure n
    · exact noerr_bind (noerr_modify _) fun _ => noerr_if_some fun parent =>
        noerr_bind (noerr_update_node _) fun _ => ih parent

theorem noerr_remove_members (entries : List VtableEntry) :
    NoErr (entries.forM (remove_member path interface)) := by
  induction entries with
  | nil => exact noerr_pure _
  | cons v entries ih =>
    refine noerr_bind ?_ fun _ => ih
    unfold remove_member
    split
    · exact noerr_pure _
    · exact noerr_modify _

/-- Nothing can fail while a slot is disconnected. -/
theorem noerr_disconnect_type : NoErr (slot_disconnect_type s) := by
  refine noerr_bind (noerr_slot s) fun x => noerr_bind (noerr_when ?_) fun _ => ?_
  · exact noerr_bind (noerr_if_some fun path => noerr_if_some fun interface =>
      noerr_if_some fun vtable => noerr_remove_members _) fun _ =>
        noerr_bind (noerr_slot s) fun _ => noerr_modify _
  · exact noerr_if_some fun path => noerr_bind (noerr_update_node _) fun _ =>
      noerr_bind (noerr_modify _) fun _ => noerr_node_gc _ _

/-- While a slot is disconnected it is in between. -/
theorem shrinks_disconnect_type : Keeps (Shrinks b₀ (some s)) (slot_disconnect_type s) := by
  intro b h
  refine holds_slot_bind fun x hx => ?_
  refine keeps_bind (keeps_when ?_) (fun _ => ?_) b h
  · refine keeps_bind (shrinks_if_some fun path => shrinks_if_some fun interface =>
      shrinks_if_some fun vtable => shrinks_remove_members _) fun _ => ?_
    exact shrinks_update_slot fun _ _ he => absurd rfl he
  · refine shrinks_if_some fun path => keeps_bind (shrinks_update_node fun n => ?_) fun _ =>
      keeps_bind (shrinks_modify (fun _ => rfl) fun _ => rfl) fun _ => shrinks_node_gc _ _
    unfold BusNode.set_list
    dsimp only
    split
    · next heq =>
      rw [heq]
      exact erase_sublist
    · exact .refl _

theorem shrinks_disconnect : Keeps (Shrinks b₀ none) (slot_disconnect s) := by
  intro b h
  refine holds_slot_bind fun x hx => holds_when (fun _ => ?_) fun _ => h
  refine holds_bind (holds_keeps shrinks_disconnect_type noerr_disconnect_type (h.weaken _)) ?_
  intro _ b₁ h1
  refine holds_slot_bind fun y hy => holds_modify (Shrinks.close (s := s) (h1.set_slot ?_) ?_)
  · intro _ _ _ he
    exact absurd rfl he
  · rintro z q hz ⟨hbus, _⟩
    rw [set_slot_self] at hz
    cases hz
    cases hbus

theorem shrinks_unref : Keeps (Shrinks b₀ none) (sd_bus_slot_unref s) := by
  intro b h
  refine holds_slot_bind fun x hx => holds_assert_bind fun _ => ?_
  have hupdate : Keeps (Shrinks b₀ none) (update_slot s fun x => { x with n_ref := x.n_ref - 1 }) :=
    shrinks_update_slot fun y q _ hat => ⟨hat, rfl, rfl⟩
  refine keeps_bind hupdate (fun _ => keeps_when ?_) b h
  exact keeps_bind shrinks_disconnect fun _ => keeps_modify fun b h => h.set_slot nofun

theorem shrinks_ref : Keeps (Shrinks b₀ none) (sd_bus_slot_ref s) := by
  intro b h
  refine holds_slot_bind fun x hx => holds_assert_bind fun _ => ?_
  have hupdate : Keeps (Shrinks b₀ none) (update_slot s fun x => { x with n_ref := x.n_ref + 1 }) :=
    shrinks_update_slot fun y q _ hat => ⟨hat, rfl, rfl⟩
  exact hupdate b h

theorem shrinks_slot_disconnect : Keeps (Shrinks b₀ none) (bus_slot_disconnect s) := by
  intro b h
  refine holds_slot_bind fun x hx => ?_
  exact keeps_when (keeps_bind shrinks_disconnect fun _ => keeps_when shrinks_unref) b h

/-! ## Section 5: What is put in -/

/-- Only this slot is different, which is now like this. -/
structure Holding (b₀ : Objects) (s : SlotId) (x : Slot) (b : Objects) : Prop where
  nodes : b.nodes = b₀.nodes
  others : ∀ t, t ≠ s → b.slots t = b₀.slots t
  slot : b.slots s = some x

theorem Holding.congr (h : Holding b₀ s x b) (hslots : b'.slots = b.slots)
    (hnodes : b'.nodes = b.nodes) : Holding b₀ s x b' :=
  ⟨hnodes.trans h.nodes, fun t ht => (hslots ▸ h.others t ht), hslots ▸ h.slot⟩

theorem Holding.update (h : Holding b₀ s x b) (f : Slot → Slot) :
    Holds (update_slot s f) b (fun _ => Holding b₀ s (f x)) E := by
  refine holds_slot_bind fun y hy => holds_modify ⟨h.nodes, fun t ht => ?_, ?_⟩
  · rw [set_slot_of_ne ht]
    exact h.others t ht
  · rw [set_slot_self, Option.some.inj (hy.symm.trans h.slot)]

theorem Holding.shrinks (h : Holding b s x b') (hs : Shrinks b₀ none b)
    (hx : ∀ q, ¬ x.At .node_vtable q) : Shrinks b₀ none b' := by
  refine ⟨fun t y q _ hy hat => ?_, fun q => ?_⟩
  · by_cases ht : t = s
    · subst ht
      rw [h.slot] at hy
      cases hy
      exact absurd hat (hx q)
    · rw [h.others t ht] at hy
      exact hs.slots t y q nofun hy hat
  · have := hs.lists q
    unfold vtable_list at *
    rwa [h.nodes]

/-- A new slot, which is not at any node. -/
theorem holds_slot_allocate (type : BusSlotType) (floating : Bool) :
    Holds (bus_slot_allocate type floating) b (fun s => Holding b s (Slot.new type floating))
      (fun b' => b'.nodes = b.nodes ∧ b'.slots = b.slots) := by
  have halloc : Keeps (fun b' => b'.nodes = b.nodes ∧ b'.slots = b.slots) alloc := by
    exact keeps_bind keeps_get fun _ => keeps_ite (keeps_fail _) (keeps_modify fun _ h => h)
  refine holds_bind (halloc b ⟨rfl, rfl⟩) ?_
  rintro _ b₁ ⟨hnodes, hslots⟩
  refine holds_get_bind (holds_modify_bind (holds_pure ⟨hnodes, fun t ht => ?_, ?_⟩))
  · rw [← hslots]
    exact if_neg ht
  · exact if_pos rfl

/-- A slot that is not for a vtable. -/
theorem shrinks_add_node_slot {type : BusSlotType} (htype : type ≠ .node_vtable)
    (floating is_fallback : Bool) (path : Path) :
    Keeps (Shrinks b₀ none) (add_node_slot type floating is_fallback path) := by
  refine keeps_bind (shrinks_node_allocate _ _) fun _ => keeps_cleanup ?_ (shrinks_node_gc _ _)
  intro b h
  refine holds_bind (holds_mono (holds_slot_allocate type floating) (fun _ _ h => h)
    fun _ h' => h.congr h'.2 h'.1) ?_
  intro s b₁ h1
  refine holds_bind (h1.update _) ?_
  intro _ b2 h2
  have hshrinks : Shrinks b₀ none b2 := h2.shrinks h fun q hat => htype hat.2.1
  refine keeps_bind (shrinks_update_node fun n => ?_) (fun _ => ?_) b2 hshrinks
  · unfold BusNode.set_list
    dsimp only
    rw [if_neg (Ne.symm htype)]
  · exact keeps_bind (shrinks_modify (fun _ => rfl) fun _ => rfl) fun _ => keeps_pure _

variable {vtable : Vtable}

variable {fallback : Bool}

/-- Nothing is changed where a vtable is looked for. -/
theorem keeps_find_existing {I : Objects → Prop} (l : List SlotId) : ∀ existing,
    Keeps I (find_existing interface vtable fallback l existing) := by
  induction l with
  | nil => exact fun _ => keeps_pure _
  | cons i l ih =>
    intro existing b h
    refine holds_slot_bind fun x hx => ?_
    exact keeps_bind (keeps_check _ _) (fun _ => keeps_ite
      (keeps_bind (keeps_check _ _) fun _ => ih _) (ih _)) b h

theorem holds_find_existing {l : List SlotId} (h : Shrinks b₀ none b) :
    Holds (find_existing interface vtable fallback l none) b
      (fun r b' => b = b' ∧ r = l.reverse.find? fun t => interface_of b t == some interface)
      (Shrinks b₀ none) := by
  have hkeeps : Holds (find_existing interface vtable fallback l none) b _ _ :=
    keeps_find_existing l none b h
  unfold Holds at hkeeps ⊢
  match hr : find_existing interface vtable fallback l none b with
  | (.ok r, b') =>
    obtain ⟨hb, hfind⟩ := find_existing_ok hr
    exact ⟨hb.symm, hfind.trans Option.or_none⟩
  | (.err e, b') =>
    rw [hr] at hkeeps
    exact hkeeps
  | (.abort, b') => trivial

section tables
variable {interface : List UInt8} {vtable : Vtable} {b₁ : Objects}

theorem holding_modify {g : Objects → Objects} (hslots : ∀ b, (g b).slots = b.slots)
    (hnodes : ∀ b, (g b).nodes = b.nodes) : Keeps (Holding b₁ s x) (Call.modify g) :=
  keeps_modify fun b h => h.congr (hslots b) (hnodes b)

theorem holding_alloc : Keeps (Holding b₁ s x) alloc := by
  exact keeps_bind keeps_get fun _ => keeps_ite (keeps_fail _)
    (holding_modify (fun _ => rfl) fun _ => rfl)

theorem holding_set_put (k : MemberKind) (m : BusVTableMember) :
    Keeps (Holding b₁ s x) (set_put k m) := by
  exact keeps_bind holding_alloc fun _ => keeps_bind keeps_get fun _ =>
    keeps_bind (keeps_check _ _) fun _ => keeps_bind holding_alloc fun _ =>
      holding_modify (fun _ => rfl) fun _ => rfl

/-- Only the tables are changed where members are put in, or taken out again. -/
theorem holding_add_members (entries : List VtableEntry) : ∀ names,
    Keeps (Holding b₁ s x) (add_members s path interface vtable entries names) := by
  induction entries with
  | nil => exact fun _ => keeps_pure _
  | cons v entries ih =>
    intro names
    unfold add_members
    split
    · split
      · exact keeps_fail _
      · exact keeps_bind (holding_set_put _ _) fun _ => ih _
    · exact keeps_bind (keeps_check _ _) fun _ => keeps_bind (keeps_check _ _) fun _ =>
        keeps_bind (holding_set_put _ _) fun _ => ih _
    · exact keeps_bind (keeps_check _ _) fun _ => keeps_bind (keeps_check _ _) fun _ =>
        keeps_bind (holding_set_put _ _) fun _ => ih _
    · split
      · exact keeps_fail _
      · exact ih _
    · exact keeps_fail _

theorem holding_undo (entries : List VtableEntry) :
    Keeps (Holding b₁ s x) (entries.forM (undo_member s path interface)) := by
  have hif : ∀ {α : Type} {a : Option α} {f : α → Call Objects PUnit},
      (∀ y, Keeps (Holding b₁ s x) (f y)) → Keeps (Holding b₁ s x) (if_some a f) := by
    intro α a f hf
    cases a with
    | none => exact keeps_pure _
    | some y => exact hf y
  induction entries with
  | nil => exact keeps_pure _
  | cons v entries ih =>
    refine keeps_bind (keeps_bind keeps_get fun b => ?_) fun _ => ih
    exact hif fun k => keeps_when (hif fun y => keeps_when
      (holding_modify (fun _ => rfl) fun _ => rfl))

theorem holds_add_members {b : Objects} (h : Holding b₁ s x b) (names : List (List UInt8)) :
    Holds (add_members s path interface vtable vtable.entries names) b
      (fun _ b' => Holding b₁ s x b' ∧ (property_names vtable.entries).Nodup) (Holding b₁ s x) := by
  have hkeeps : Holds (add_members s path interface vtable vtable.entries names) b _ _ :=
    holding_add_members vtable.entries names b h
  unfold Holds at hkeeps ⊢
  match hr : add_members s path interface vtable vtable.entries names b with
  | (.ok _, b') =>
    rw [hr] at hkeeps
    exact ⟨hkeeps, (add_members_ok hr).1⟩
  | (.err e, b') =>
    rw [hr] at hkeeps
    exact hkeeps
  | (.abort, b') => trivial

end tables

/-- A vtable has been put in, behind the last one of its interface. -/
structure Attached (b₀ : Objects) (path : Path) (interface : List UInt8) (vtable : Vtable)
    (b₁ : Objects) (s : SlotId) (x : Slot) (b : Objects) : Prop where
  before : Shrinks b₀ none b₁
  others : ∀ t, t ≠ s → b.slots t = b₁.slots t
  slot : b.slots s = some x
  complete : x.Complete interface vtable
  place : x.At .node_vtable path
  elsewhere : ∀ q, q ≠ path → vtable_list b q = vtable_list b₁ q
  list : vtable_list b path =
    insert_vtable ((vtable_list b₁ path).reverse.find? fun t =>
      interface_of b₁ t == some interface) s (vtable_list b₁ path)

theorem holds_add_vtable (floating fallback : Bool) (path : Path) (interface : List UInt8)
    (vtable : Vtable) : Holds (add_object_vtable_internal floating fallback path interface vtable) b
      (fun _ b' => ∃ b₁ s x, Attached b path interface vtable b₁ s x b') (Shrinks b none) := by
  have hb := Shrinks.refl b
  refine holds_check_bind hb fun _ => holds_check_bind hb fun hvalid => holds_check_bind hb fun _ =>
    holds_check_bind hb fun _ => holds_check_bind hb fun hreserved => ?_
  refine holds_bind (shrinks_node_allocate _ _ b hb) fun _ b₁ h1 => ?_
  refine holds_cleanup (F := Shrinks b none) ?_ (shrinks_node_gc _ _)
  refine holds_node_bind fun n hn => ?_
  have hlist : n.list .node_vtable = vtable_list b₁ path := by
    unfold vtable_list
    rw [hn]
  rw [hlist]
  refine holds_bind (holds_find_existing h1) ?_
  rintro existing _ ⟨rfl, hexisting⟩
  refine holds_bind (holds_mono (holds_slot_allocate .node_vtable floating) (fun _ _ h => h)
    fun _ h => h1.congr h.2 h.1) ?_
  intro s b2 h2
  refine holds_bind (h2.update _) ?_
  intro _ b3 h3
  obtain ⟨x, hx⟩ : ∃ x : Slot, x = { Slot.new .node_vtable floating with
    is_fallback := fallback, vtable := some vtable } := ⟨_, rfl⟩
  have hxnode : x.node = none := by rw [hx]; rfl
  rw [← hx] at h3
  obtain ⟨y, hy⟩ : ∃ y : Slot, y = { x with interface := some interface } := ⟨_, rfl⟩
  have hynode : y.node = none := by rw [hy]; exact hxnode
  have hnowhere : ∀ {z : Slot} {b' : Objects}, z.node = none → Holding b₁ s z b' →
      Shrinks b none b' := by
    intro z b' hz h
    refine h.shrinks h1 fun q hat => ?_
    rw [hat.2.2] at hz
    cases hz
  refine holds_bind (R := fun _ b' => Holding b₁ s y b' ∧ (property_names vtable.entries).Nodup)
    (holds_cleanup (F := Shrinks b none) ?_ shrinks_unref) ?_
  · refine holds_bind (holds_mono (holding_alloc b3 h3) (fun _ _ h => h) fun _ => hnowhere hxnode) ?_
    intro _ b4 h4
    refine holds_bind (h4.update _) ?_
    intro _ b5 h5
    rw [← hy] at h5
    refine holds_cleanup (F := Holding b₁ s y) (holds_add_members h5 []) fun b' h' => ?_
    exact holds_mono (holding_undo vtable.entries b' h') (fun _ _ => hnowhere hynode)
      fun _ => hnowhere hynode
  rintro _ b4 ⟨h4, hnames⟩
  refine holds_bind (h4.update _) ?_
  intro _ b5 h5
  refine holds_bind (R := fun _ b' => b' = b5.set_node path (some (n.set_list .node_vtable
    (insert_vtable existing s (n.list .node_vtable))))) (holds_node_bind fun m hm =>
      holds_modify ?_) ?_
  · rw [h5.nodes] at hm
    rw [Option.some.inj (hm.symm.trans hn)]
  rintro _ _ rfl
  refine holds_modify_bind (holds_pure ⟨_, s, { y with node := some path }, h1, h5.others,
    h5.slot, ?_, ?_, fun q hq => ?_, ?_⟩)
  · refine ⟨?_, ?_, hvalid, ?_, hnames⟩
    · rw [hy]
    · rw [hy, hx]
    · rwa [Bool.not_eq_true'] at hreserved
  · rw [hy, hx]
    exact ⟨rfl, rfl, rfl⟩
  · unfold vtable_list Objects.set_node
    dsimp only
    rw [if_neg hq, h5.nodes]
  · rw [← hexisting, ← hlist]
    change (match (if path = path then _ else _ : Option BusNode) with
      | none => [] | some n => n.list .node_vtable) = _
    rw [if_pos rfl]
    dsimp only [BusNode.set_list]
    rw [if_pos rfl]

/-! ## Section 6: Runs -/

theorem mem_vtable_list (h : Good b) {t : SlotId} :
    t ∈ vtable_list b q ↔ ∃ x, b.slots t = some x ∧ x.At .node_vtable q := by
  unfold vtable_list
  cases hn : b.nodes q with
  | some n => exact h.tree.list q n .node_vtable t hn
  | none =>
    refine ⟨nofun, fun ⟨x, hx, hat⟩ => ?_⟩
    have := (h.nodes q).mpr (.inl (Forest.covers_of_mem ⟨t, _, x, hx, hat⟩))
    rw [hn] at this
    cases this

theorem nodup_vtable_list (h : Good b) (q : Path) : (vtable_list b q).Nodup := by
  unfold vtable_list
  cases hn : b.nodes q with
  | some n => exact h.tree.list_nodup q n _ hn
  | none => exact nodup_nil

theorem interface_of_eq {x : Slot} (hx : b.slots s = some x) : interface_of b s = x.interface := by
  unfold interface_of
  rw [hx]
  rfl

/-- What is less is as good. -/
theorem Vtables.shrink (h : Vtables b₀) (hs : Shrinks b₀ none b) (hb : Good b) : Vtables b := by
  refine ⟨fun t x q hx hat => ?_, fun q => ?_⟩
  · obtain ⟨y, hy, haty, hi, hv⟩ := hs.slots t x q nofun hx hat
    obtain ⟨i, v, hc⟩ := h.complete t y q hy haty
    exact ⟨i, v, hi.symm.trans hc.interface, hv.symm.trans hc.vtable, hc.valid, hc.reserved, hc.names⟩
  · refine ((h.grouped q).sublist (hs.lists q)).congr fun t ht => ?_
    obtain ⟨x, hx, hat⟩ := (mem_vtable_list hb).mp ht
    obtain ⟨y, hy, _, hi, _⟩ := hs.slots t x q nofun hx hat
    rw [interface_of_eq hx, interface_of_eq hy, hi]

/-- So is one vtable more. -/
theorem Vtables.attach {b₁ : Objects} (h : Vtables b₀)
    (ha : Attached b₀ path interface vtable b₁ s x b) (hb : Good b) : Vtables b := by
  have hmem : ∀ q t, t ≠ s → t ∈ vtable_list b q → interface_of b₀ t = interface_of b t := by
    intro q t ht hmem
    obtain ⟨z, hz, hat⟩ := (mem_vtable_list hb).mp hmem
    obtain ⟨y, hy, _, hi, _⟩ := ha.before.slots t z q nofun ((ha.others t ht) ▸ hz) hat
    rw [interface_of_eq hz, interface_of_eq hy, hi]
  have hsame : ∀ t, t ≠ s → interface_of b t = interface_of b₁ t := by
    intro t ht
    unfold interface_of
    rw [ha.others t ht]
  refine ⟨fun t z q hz hat => ?_, fun q => ?_⟩
  · by_cases ht : t = s
    · subst ht
      obtain rfl := Option.some.inj (hz.symm.trans ha.slot)
      exact ⟨_, _, ha.complete⟩
    · obtain ⟨y, hy, haty, hi, hv⟩ := ha.before.slots t z q nofun ((ha.others t ht) ▸ hz) hat
      obtain ⟨i, v, hc⟩ := h.complete t y q hy haty
      exact ⟨i, v, hi.symm.trans hc.interface, hv.symm.trans hc.vtable, hc.valid, hc.reserved, hc.names⟩
  by_cases hq : q = path
  · subst hq
    have hperm := insert_vtable_perm ((vtable_list b₁ q).reverse.find? fun t =>
      interface_of b₁ t == some interface) s (vtable_list b₁ q)
    have hnodup := nodup_vtable_list hb q
    rw [ha.list] at hnodup
    obtain ⟨hnot, hnodup1⟩ := nodup_cons.mp (hperm.nodup_iff.mp hnodup)
    have hne : ∀ t ∈ vtable_list b₁ q, t ≠ s := fun t ht heq => hnot (heq ▸ ht)
    have hin : ∀ t ∈ vtable_list b₁ q, t ∈ vtable_list b q := fun t ht =>
      ha.list ▸ hperm.mem_iff.mpr (mem_cons_of_mem s ht)
    have hold : Grouped (interface_of b) (vtable_list b₁ q) :=
      ((h.grouped q).sublist (ha.before.lists q)).congr fun t ht =>
        hmem q t (hne t ht) (hin t ht)
    have hs : interface_of b s = some interface :=
      (interface_of_eq ha.slot).trans ha.complete.interface
    have hfind : ((vtable_list b₁ q).reverse.find? fun t => interface_of b₁ t == some interface) =
        (vtable_list b₁ q).reverse.find? fun t => interface_of b t == some interface := by
      refine find?_congr fun t ht => ?_
      rw [hsame t (hne t (mem_reverse.mp ht))]
    rw [ha.list, hfind]
    exact grouped_insert_vtable hold hnodup1 hs
  · rw [ha.elsewhere q hq]
    refine ((h.grouped q).sublist (ha.before.lists q)).congr fun t ht => ?_
    have hin : t ∈ vtable_list b q := ha.elsewhere q hq ▸ ht
    refine hmem q t (fun heq => hq ?_) hin
    obtain ⟨z, hz, hat⟩ := (mem_vtable_list hb).mp hin
    rw [heq] at hz
    obtain rfl := Option.some.inj (hz.symm.trans ha.slot)
    exact Option.some.inj (hat.2.2.symm.trans ha.place.2.2)

theorem vtables_new : Vtables Objects.new :=
  ⟨nofun, fun _ => grouped_nil⟩

/-- One call. -/
theorem vtables_step {c : ObjectCall} (h : Good b ∧ Vtables b) (hclean : Clean b c)
    (hstep : object_system.step b c b') : Good b' ∧ Vtables b' := by
  have hgood : Good b' := good_step h.1 hclean hstep
  refine ⟨hgood, ?_⟩
  obtain ⟨hne, rfl⟩ := hstep
  have hm : Vtables { b with memory := c.memory } := ⟨h.2.complete, h.2.grouped⟩
  have hrefl := Shrinks.refl { b with memory := c.memory }
  have hkeeps : ∀ x : Call Objects PUnit,
      Keeps (Shrinks { b with memory := c.memory } none) x → c.run = x →
      Vtables (c.run { b with memory := c.memory }).2 := by
    rintro x hx rfl
    have hrun := hx _ hrefl
    unfold Holds at hrun
    refine hm.shrink ?_ hgood
    match hr : c.run { b with memory := c.memory } with
    | (.ok _, b₁) =>
      rw [hr] at hrun
      exact hrun
    | (.err _, b₁) =>
      rw [hr] at hrun
      exact hrun
    | (.abort, _) =>
      rw [hr] at hne
      exact absurd rfl hne
  cases c with
  | add_object memory floating fallback path callback =>
    refine hkeeps _ (keeps_bind ?_ fun _ => keeps_pure _) rfl
    exact keeps_bind (keeps_check _ _) fun _ => keeps_bind (keeps_check _ _) fun _ =>
      shrinks_add_node_slot (by decide) _ _ _
  | add_node_enumerator memory floating path callback =>
    refine hkeeps _ (keeps_bind ?_ fun _ => keeps_pure _) rfl
    exact keeps_bind (keeps_check _ _) fun _ => keeps_bind (keeps_check _ _) fun _ =>
      shrinks_add_node_slot (by decide) _ _ _
  | add_object_manager memory floating path =>
    refine hkeeps _ (keeps_bind ?_ fun _ => keeps_pure _) rfl
    exact keeps_bind (keeps_check _ _) fun _ => shrinks_add_node_slot (by decide) _ _ _
  | add_vtable memory floating fallback path interface vtable =>
    have hrun : Holds (ObjectCall.add_vtable memory floating fallback path interface vtable).run
        { b with memory := memory }
        (fun _ b' => ∃ b₁ s x, Attached { b with memory := memory } path interface vtable b₁ s x b')
        (Shrinks { b with memory := memory } none) :=
      holds_bind (holds_add_vtable floating fallback path interface vtable) fun _ _ h => h
    unfold Holds at hrun
    change Good ((ObjectCall.add_vtable memory floating fallback path interface vtable).run
        { b with memory := memory }).2 at hgood
    change ((ObjectCall.add_vtable memory floating fallback path interface vtable).run
        { b with memory := memory }).1 ≠ .abort at hne
    match hr : (ObjectCall.add_vtable memory floating fallback path interface vtable).run
        { b with memory := memory } with
    | (.ok _, b₁) =>
      rw [hr] at hrun hgood
      obtain ⟨_, _, _, ha⟩ := hrun
      exact hm.attach ha hgood
    | (.err _, b₁) =>
      rw [hr] at hrun hgood
      exact hm.shrink hrun hgood
    | (.abort, _) =>
      rw [hr] at hne
      exact absurd rfl hne
  | slot_ref s => exact hkeeps _ shrinks_ref rfl
  | slot_unref s => exact hkeeps _ shrinks_unref rfl
  | slot_disconnect s => exact hkeeps _ shrinks_slot_disconnect rfl

theorem vtables_of_reachable (h : Reachable (object_system.restrict Clean) b) : Vtables b := by
  have hinit : ∀ b, (object_system.restrict Clean).init b → Good b ∧ Vtables b := by
    rintro b rfl
    exact ⟨good_new, vtables_new⟩
  exact (Reachable.invariant hinit (fun b c b' hb hstep => vtables_step hb hstep.1 hstep.2) h).2

end shrinks

end SdCompat.Objects
