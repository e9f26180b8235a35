import SdCompat.SdBus.ObjectsManager

/-! # Managed objects and their signals (bus-objects.c)

    GetManagedObjects writes an object for each node that has a vtable for its
    path, the signals write one for all of them. They agree if and only if the
    vtables for a path are all at one node.
-/

namespace SdCompat.Objects

open Bus Transition List Nat

/-! ## Section 1: Paths -/

section paths
variable {c : UInt8} {s m r : List UInt8} {path p q : Path}

/-- What is before the last one, and behind it. -/
theorem strrchr_split {e : Nat} (h : strrchr c s = some e) :
    ∃ s₁ s₂, s = s₁ ++ c :: s₂ ∧ s₁.length = e := by
  induction s generalizing e with
  | nil => cases h
  | cons x s ih =>
    unfold strrchr at h
    cases hs : strrchr c s with
    | some i =>
      rw [hs] at h
      obtain ⟨s₁, s₂, rfl, rfl⟩ := ih hs
      exact ⟨x :: s₁, s₂, rfl, Option.some.inj h⟩
    | none =>
      rw [hs] at h
      dsimp only at h
      split at h
      · next hx =>
        subst hx
        exact ⟨[], s, rfl, Option.some.inj h⟩
      · cases h

/-- The last one is here, or in what follows. -/
theorem strrchr_append (m r : List UInt8) : strrchr c (m ++ c :: r) = some m.length ∨
    ∃ r₁ r₂, r = r₁ ++ c :: r₂ ∧ strrchr c (m ++ c :: r) = some (m.length + 1 + r₁.length) := by
  induction m with
  | nil =>
    rw [nil_append, strrchr]
    cases hr : strrchr c r with
    | none => exact .inl (if_pos rfl)
    | some i =>
      obtain ⟨r₁, r₂, rfl, rfl⟩ := strrchr_split hr
      refine .inr ⟨r₁, r₂, rfl, ?_⟩
      dsimp only [length_nil]
      rw [add_comm]
  | cons x m ih =>
    rw [cons_append, strrchr]
    rcases ih with h | ⟨r₁, r₂, hr, h⟩
    · rw [h]
      exact .inl rfl
    · rw [h]
      refine .inr ⟨r₁, r₂, hr, ?_⟩
      dsimp only [length_cons]
      congr 1
      omega

/-- What is before a slash of a path is above it. -/
theorem above_of_slash (hm : m ≠ []) (r : List UInt8) : paths.Above m (m ++ 0x2f :: r) := by
  induction hlen : r.length using Nat.strongRecOn generalizing r with
  | ind n ih =>
    subst hlen
    have hpos : 0 < m.length := length_pos_iff.mpr hm
    have hroot : m ++ 0x2f :: r ≠ root := by
      intro heq
      have := congrArg length heq
      simp only [length_append, length_cons, root, length_nil] at this
      omega
    have hparent : parent_path (m ++ 0x2f :: r) =
        (strrchr 0x2f (m ++ 0x2f :: r)).map fun e => (m ++ 0x2f :: r).take (max 1 e) := if_neg hroot
    rcases strrchr_append (c := 0x2f) m r with h | ⟨r1, r2, rfl, h⟩
    · rw [h, Option.map_some, max_eq_right hpos, take_left] at hparent
      exact .up hparent .self
    · have htake : (m ++ 0x2f :: (r1 ++ 0x2f :: r2)).take (m.length + 1 + r1.length) =
          m ++ 0x2f :: r1 := by
        rw [← cons_append, ← append_assoc]
        refine take_left' ?_
        rw [length_append, length_cons]
        omega
      rw [h, Option.map_some, max_eq_right (by omega), htake] at hparent
      refine .up hparent (ih _ ?_ r1 rfl)
      rw [length_append, length_cons]
      omega

/-- The root is above every path. -/
theorem above_of_root (h : Slash path) : paths.Above root path := by
  induction hlen : path.length using Nat.strongRecOn generalizing path with
  | ind n ih =>
    subst hlen
    by_cases hroot : path = root
    · rw [hroot]
      exact .self
    · have hparent := h.has_parent
      rw [beq_eq_false_iff_ne.mpr hroot] at hparent
      obtain ⟨r, hr⟩ := Option.isSome_iff_exists.mp hparent
      exact .up hr (ih _ (parent_path_lt hr) (h.parent hr) rfl)

theorem startswith_eq {s t r : List UInt8} (h : startswith s t = some r) : s = t ++ r := by
  induction t generalizing s with
  | nil =>
    unfold startswith at h
    exact Option.some.inj h
  | cons c t ih =>
    cases s with
    | nil => cases h
    | cons a s =>
      unfold startswith at h
      split at h
      · next hac => rw [hac, ih h, cons_append]
      · cases h

/-- A path that starts with another one is below it. -/
theorem above_of_startswith (h : object_path_startswith p q = true) : paths.Above q p := by
  unfold object_path_startswith at h
  rw [Bool.and_eq_true, Bool.and_eq_true] at h
  obtain ⟨⟨hp, hq⟩, h⟩ := h
  rw [Bool.or_eq_true] at h
  rcases h with h | h
  · rw [beq_iff_eq.mp h]
    exact above_of_root (Slash.of_valid hp)
  · have hne : q ≠ [] := by
      rintro rfl
      cases hq
    split at h
    · cases h
    · next hs =>
      rw [startswith_eq hs, append_nil]
      exact .self
    · next c r hs =>
      rw [startswith_eq hs, beq_iff_eq.mp h]
      exact above_of_slash hne r

/-- More fuel finds no more. -/
theorem prefixes_at_eq {fuel fuel' : Nat} {p : Path} (h : p.length ≤ fuel) (h' : p.length ≤ fuel') :
    prefixes_at fuel p = prefixes_at fuel' p := by
  induction fuel generalizing fuel' p with
  | zero =>
    obtain rfl := length_eq_zero_iff.mp (le_zero.mp h)
    cases fuel' <;> rfl
  | succ fuel ih =>
    cases fuel' with
    | zero =>
      obtain rfl := length_eq_zero_iff.mp (le_zero.mp h')
      rfl
    | succ fuel' =>
      unfold prefixes_at
      cases hparent : parent_path p with
      | none => rfl
      | some r =>
        have hlt := parent_path_lt hparent
        have hrest : prefixes_at fuel r = prefixes_at fuel' r := ih (by omega) (by omega)
        dsimp only
        rw [hrest]

theorem prefixes_cons {r : Path} (h : parent_path p = some r) : prefixes p = r :: prefixes r := by
  have hlt := parent_path_lt h
  unfold prefixes
  obtain ⟨n, hn⟩ := exists_eq_succ_of_ne_zero (show p.length ≠ 0 by omega)
  rw [hn, prefixes_at, h]
  dsimp only
  rw [prefixes_at_eq (by omega) (le_refl _)]

end paths

/-! ## Section 2: The children of an object manager -/

/-- What the walks of an object manager rely on, in addition: the nodes are
    linked, and none is deeper than the slots. -/
structure Managed (b : Objects) : Prop extends Served b where
  up : ∀ q n, b.nodes q = some n → n.parent = parent_path q
  child : ∀ q n c, b.nodes q = some n → c ∈ n.child →
    parent_path c = some q ∧ (b.nodes c).isSome
  deep : ∀ q, (b.nodes q).isSome → q.length ≤ b.depth

theorem le_foldr_max {l : List Nat} {x : Nat} (h : x ∈ l) : x ≤ l.foldr max 0 := by
  induction l with
  | nil => cases h
  | cons y l ih =>
    rcases mem_cons.mp h with rfl | h
    · exact le_max_left _ _
    · exact le_trans (ih h) (le_max_right _ _)

/-- The object tree is like this after every run. -/
theorem managed_of_reachable {b : Objects} (h : Reachable (object_system.restrict Clean) b) :
    Managed b := by
  have hg := good_of_reachable h
  refine ⟨served_of_reachable h, hg.tree.parent, fun q n c hn => (hg.tree.child q n c hn).mp,
    fun q hq => ?_⟩
  obtain ⟨p, ⟨s, t, x, hx, hat⟩, habove⟩ := ((hg.nodes q).mp hq).resolve_right id
  have hlt : s < b.next_slot := by
    by_contra hle
    rw [hg.fresh s (Nat.le_of_not_lt hle)] at hx
    cases hx
  refine Nat.le_trans (Forest.Above.rank_le habove) (le_foldr_max ?_)
  refine mem_map.mpr ⟨s, mem_range.mpr hlt, ?_⟩
  rw [hx, Option.bind_some, hat.2.2]
  rfl

section children
variable {Val : Type} {env : ManagerCallbacks Val} {b : Objects} {path : Path} {n : BusNode}
  {s s' : List Path}

/-- A set of paths below a path. -/
def Below (path : Path) (s : List Path) : Prop :=
  s.Nodup ∧ ∀ p ∈ s, object_path_startswith p path = true

theorem Below.consume (h : Below path s) {k : Path} (hk : object_path_startswith k path = true) :
    Below path (ordered_set_consume s k) := by
  unfold ordered_set_consume
  split
  · exact h
  · next hnot =>
    refine ⟨nodup_append.mpr ⟨h.1, nodup_singleton k, ?_⟩, fun p hp => ?_⟩
    · rintro a ha _ hb rfl
      exact hnot (mem_singleton.mp hb ▸ ha)
    · rcases mem_append.mp hp with hp | hp
      · exact h.2 p hp
      · rwa [mem_singleton.mp hp]

theorem Below.children {children : List Path} (h : Below path s)
    (hr : add_children path children s = some s') : Below path s' := by
  induction children generalizing s with
  | nil =>
    cases hr
    exact h
  | cons k children ih =>
    unfold add_children at hr
    split at hr
    · cases hr
    · cases hk : object_path_startswith k path with
      | false =>
        rw [hk] at hr
        exact ih h hr
      | true =>
        rw [hk] at hr
        exact ih (h.consume hk) hr

theorem Below.enumerated {enumerators : List SlotId} (h : Below path s)
    (hr : add_enumerated_to_set env path enumerators s = some s') : Below path s' := by
  induction enumerators generalizing s with
  | nil =>
    cases hr
    exact h
  | cons c enumerators ih =>
    unfold add_enumerated_to_set at hr
    cases hs : add_children path (env.enumerate c path) s with
    | none =>
      rw [hs] at hr
      cases hr
    | some s1 =>
      rw [hs] at hr
      exact ih (h.children hs) hr

theorem Below.siblings {sub : BusNode → List Path → Outcome (List Path)}
    (hsub : ∀ n s s', Below path s → sub n s = .ok s' → Below path s') {siblings : List Path}
    (h : Below path s) (hr : add_siblings_to_set b sub path siblings s = .ok s') :
    Below path s' := by
  induction siblings generalizing s with
  | nil =>
    obtain rfl := Outcome.ok.inj hr
    exact h
  | cons i siblings ih =>
    unfold add_siblings_to_set at hr
    cases hi : object_path_startswith i path with
    | false =>
      rw [hi] at hr
      exact ih h hr
    | true =>
      rw [hi] at hr
      have hset := h.consume hi
      rw [if_neg (by decide)] at hr
      cases hn : b.nodes i with
      | none =>
        rw [hn] at hr
        cases hr
      | some n =>
        rw [hn] at hr
        dsimp only at hr
        split at hr
        · exact ih hset hr
        · cases hrun : sub n (ordered_set_consume s i) with
          | ok s1 =>
            rw [hrun] at hr
            exact ih (hsub _ _ _ hset hrun) hr
          | err e =>
            rw [hrun] at hr
            cases hr
          | abort =>
            rw [hrun] at hr
            cases hr

/-- The children are below the path, and each is in the set once. -/
theorem below_child_nodes (h : get_child_nodes env b path n = .ok s) : Below path s := by
  have hall : ∀ fuel n s s', Below path s → add_subtree_to_set env b path fuel n s = .ok s' →
      Below path s' := by
    intro fuel
    induction fuel with
    | zero =>
      intro n s s' _ hr
      cases hr
    | succ fuel ih =>
      intro n s s' h hr
      unfold add_subtree_to_set at hr
      cases hs : add_enumerated_to_set env path (n.list .node_enumerator) s with
      | none =>
        rw [hs] at hr
        cases hr
      | some s1 =>
        rw [hs] at hr
        exact (h.enumerated hs).siblings ih hr
  exact hall _ _ _ _ ⟨nodup_nil, nofun⟩ h

/-- The walk over the nodes ends. -/
theorem get_child_nodes_ends (hb : Managed b) {q : Path} (hn : b.nodes q = some n) :
    get_child_nodes env b path n ≠ .abort := by
  have hall : ∀ fuel q n s, b.nodes q = some n → b.depth < fuel + q.length →
      add_subtree_to_set env b path fuel n s ≠ .abort := by
    intro fuel
    induction fuel with
    | zero =>
      intro q n s hn hlt
      have := hb.deep q (by rw [hn]; rfl)
      omega
    | succ fuel ih =>
      intro q n s hn hlt
      unfold add_subtree_to_set
      cases add_enumerated_to_set env path (n.list .node_enumerator) s with
      | none => exact nofun
      | some s =>
        -- each child is deeper
        have hchild : ∀ i ∈ n.child, (b.nodes i).isSome ∧ ∀ m, b.nodes i = some m → ∀ s,
            add_subtree_to_set env b path fuel m s ≠ .abort := by
          intro i hi
          obtain ⟨hparent, hsome⟩ := hb.child q n i hn hi
          have := parent_path_lt hparent
          exact ⟨hsome, fun m hm s => ih i m s hm (by omega)⟩
        generalize n.child = siblings at hchild
        induction siblings generalizing s with
        | nil => exact nofun
        | cons i siblings ih' =>
          obtain ⟨⟨hsome, hsub⟩, hrest⟩ := forall_mem_cons.mp hchild
          obtain ⟨m, hm⟩ := Option.isSome_iff_exists.mp hsome
          unfold add_siblings_to_set
          rw [hm]
          dsimp only
          split
          · exact ih' s hrest
          · split
            · exact ih' _ hrest
            · cases hrun : add_subtree_to_set env b path fuel m (ordered_set_consume s i) with
              | ok s1 => exact ih' s1 hrest
              | err e => exact nofun
              | abort => exact absurd hrun (hsub m hm _)
  exact hall _ q n [] hn (by omega)

end children

/-! ## Section 3: Interfaces in groups -/

/-- What is open, and the groups of vtables of one interface behind it, each with
    what its vtables have. -/
def group_from {β : Type} (f : BusNodeVTable → List β) (i : List UInt8) (l : List β) :
    List BusNodeVTable → List (List UInt8 × List β)
  | [] => [(i, l)]
  | c :: cs =>
    if i = c.interface then group_from f i (l ++ f c) cs
    else (i, l) :: group_from f c.interface (f c) cs

def groups {β : Type} (f : BusNodeVTable → List β) :
    List BusNodeVTable → List (List UInt8 × List β)
  | [] => []
  | c :: cs => group_from f c.interface (f c) cs

section groups
variable {β γ : Type} {f : BusNodeVTable → List β} {i : List UInt8} {l : List β}
  {c : BusNodeVTable} {cs : List BusNodeVTable}

variable {g : List β → List γ}

/-- What is done to what the vtables have is done to that of the groups. -/
theorem group_from_map (hg : ∀ l l', g (l ++ l') = g l ++ g l') :
    group_from (fun c => g (f c)) i (g l) cs = (group_from f i l cs).map fun x => (x.1, g x.2) := by
  induction cs generalizing i l with
  | nil => rfl
  | cons c cs ih =>
    unfold group_from
    split
    · rw [← hg, ih]
    · rw [ih, map_cons]

theorem groups_map (hg : ∀ l l', g (l ++ l') = g l ++ g l') :
    groups (fun c => g (f c)) cs = (groups f cs).map fun x => (x.1, g x.2) := by
  cases cs with
  | nil => rfl
  | cons c cs => exact group_from_map hg

variable {x : List UInt8 × List β}

/-- The interface of a group is one of its vtables. -/
theorem mem_group_from (h : x ∈ group_from f i l cs) : x.1 = i ∨ ∃ c ∈ cs, c.interface = x.1 := by
  induction cs generalizing i l with
  | nil =>
    obtain rfl := mem_singleton.mp h
    exact .inl rfl
  | cons c cs ih =>
    unfold group_from at h
    split at h
    · rcases ih h with h | ⟨d, hd, hdi⟩
      · exact .inl h
      · exact .inr ⟨d, mem_cons_of_mem c hd, hdi⟩
    · rcases mem_cons.mp h with rfl | h
      · exact .inl rfl
      · rcases ih h with h | ⟨d, hd, hdi⟩
        · exact .inr ⟨c, mem_cons_self, h.symm⟩
        · exact .inr ⟨d, mem_cons_of_mem c hd, hdi⟩

theorem mem_groups (h : x ∈ groups f cs) : ∃ c ∈ cs, c.interface = x.1 := by
  cases cs with
  | nil => cases h
  | cons c cs =>
    rcases mem_group_from h with h | ⟨d, hd, hdi⟩
    · exact ⟨c, mem_cons_self, h.symm⟩
    · exact ⟨d, mem_cons_of_mem c hd, hdi⟩

/-- What a group has is what vtables of its interface have. -/
theorem mem_group_from_snd (h : x ∈ group_from f i l cs) {y : β} (hy : y ∈ x.2) :
    (x.1 = i ∧ y ∈ l) ∨ ∃ c ∈ cs, c.interface = x.1 ∧ y ∈ f c := by
  induction cs generalizing i l with
  | nil =>
    obtain rfl := mem_singleton.mp h
    exact .inl ⟨rfl, hy⟩
  | cons c cs ih =>
    unfold group_from at h
    split at h
    · next hi =>
      rcases ih h with ⟨hx, hl⟩ | ⟨d, hd, hdi, hyd⟩
      · rcases mem_append.mp hl with hl | hl
        · exact .inl ⟨hx, hl⟩
        · exact .inr ⟨c, mem_cons_self, hi.symm.trans hx.symm, hl⟩
      · exact .inr ⟨d, mem_cons_of_mem c hd, hdi, hyd⟩
    · rcases mem_cons.mp h with rfl | h
      · exact .inl ⟨rfl, hy⟩
      · rcases ih h with ⟨hx, hl⟩ | ⟨d, hd, hdi, hyd⟩
        · exact .inr ⟨c, mem_cons_self, hx.symm, hl⟩
        · exact .inr ⟨d, mem_cons_of_mem c hd, hdi, hyd⟩

theorem mem_groups_snd (h : x ∈ groups f cs) {y : β} (hy : y ∈ x.2) :
    ∃ c ∈ cs, c.interface = x.1 ∧ y ∈ f c := by
  cases cs with
  | nil => cases h
  | cons c cs =>
    rcases mem_group_from_snd h hy with ⟨hx, hl⟩ | ⟨d, hd, hdi, hyd⟩
    · exact ⟨c, mem_cons_self, hx.symm, hl⟩
    · exact ⟨d, mem_cons_of_mem c hd, hdi, hyd⟩

/-- An interface that has been closed does not come back. -/
theorem Grouped.apart {c d e : BusNodeVTable} (h : Grouped (·.interface) (c :: d :: cs))
    (hne : c.interface ≠ d.interface) (he : e ∈ cs) : e.interface ≠ c.interface :=
  fun heq => hne (h.next he heq).symm

/-- Each interface has one group. -/
theorem group_from_nodup {c : BusNodeVTable} (h : Grouped (·.interface) (c :: cs)) :
    ((group_from f c.interface l cs).map (·.1)).Nodup := by
  induction cs generalizing c l with
  | nil => exact nodup_singleton _
  | cons d cs ih =>
    have hrest : Grouped (·.interface) (d :: cs) := h.sublist (sublist_cons_self c _)
    unfold group_from
    split
    · next heq =>
      rw [heq]
      exact ih hrest
    · next hne =>
      rw [map_cons, nodup_cons]
      refine ⟨fun hmem => ?_, ih hrest⟩
      obtain ⟨x, hx, hxi⟩ := mem_map.mp hmem
      rcases mem_group_from hx with hxd | ⟨e, he, hei⟩
      · exact hne (hxi.symm.trans hxd)
      · exact h.apart hne he (hei.trans hxi)

theorem groups_nodup (h : Grouped (·.interface) cs) : ((groups f cs).map (·.1)).Nodup := by
  cases cs with
  | nil => exact nodup_nil
  | cons c cs => exact group_from_nodup h

end groups

/-! ## Section 4: The three loops -/

section loops
variable {Val : Type} {env : ManagerCallbacks Val} {b : Objects} {path : Path}
  {c : BusNodeVTable} {cs : List BusNodeVTable} {i : List UInt8}
  {l : List (List UInt8 × Val)} {w : Serialized Val} {rf fom : Bool}

/-- The properties of vtables one after the other. -/
theorem add_foldl (f : BusNodeVTable → List (List UInt8 × Val)) (h : w.current = some (i, l)) :
    (cs.foldl (fun w c => w.add c.interface (f c)) w).interfaces =
      w.closed ++ group_from f i l cs := by
  induction cs generalizing w i l with
  | nil =>
    unfold Serialized.interfaces
    rw [foldl_nil, h]
    rfl
  | cons c cs ih =>
    rw [foldl_cons]
    unfold group_from
    by_cases hi : i = c.interface
    · have hadd : w.add c.interface (f c) = { w with current := some (c.interface, l ++ f c) } := by
        unfold Serialized.add
        rw [h]
        exact if_pos hi
      rw [if_pos hi, hadd, ih rfl, hi]
    · have hadd : w.add c.interface (f c) =
          ⟨w.found_something, w.closed ++ [(i, l)], some (c.interface, f c)⟩ := by
        unfold Serialized.add
        rw [h]
        exact if_neg hi
      rw [if_neg hi, hadd, ih rfl, append_assoc]
      rfl

theorem add_found (h : w.found_something = true) : (w.add i l).found_something = true := by
  unfold Serialized.add
  split
  · exact h
  · split <;> exact h

/-- GetManagedObjects at one node, when an object is open. -/
theorem serialize_foldl_found (h : w.found_something = true) :
    cs.foldl (object_manager_serialize_vtable env path rf fom) w =
      (cs.filter (applies env.toCallbacks path rf)).foldl (fun w c => w.add c.interface
        (vtable_append_all_properties env.toCallbacks path false c)) w ∧
      (cs.foldl (object_manager_serialize_vtable env path rf fom) w).found_something = true := by
  induction cs generalizing w with
  | nil => exact ⟨rfl, h⟩
  | cons c cs ih =>
    rw [foldl_cons]
    unfold object_manager_serialize_vtable
    cases hrf : rf && !c.is_fallback with
    | true =>
      rw [filter_cons_of_neg (by unfold applies; rw [hrf, Bool.not_true, Bool.false_and]; decide)]
      exact ih h
    | false =>
      cases hfind : env.find c.slot path with
      | false =>
        rw [filter_cons_of_neg (by unfold applies; rw [hfind, Bool.and_false]; decide)]
        exact ih h
      | true =>
        rw [filter_cons_of_pos (by unfold applies; rw [hrf, hfind]; rfl), foldl_cons, h]
        exact ih (add_found h)

/-- From the start: an object is written if a vtable applies. -/
theorem serialize_foldl :
    let w := cs.foldl (object_manager_serialize_vtable env path rf fom) ⟨false, [], none⟩
    w.found_something = !(cs.filter (applies env.toCallbacks path rf)).isEmpty ∧
      (w.found_something = true → w.interfaces = builtin_interfaces fom ++
        groups (vtable_append_all_properties env.toCallbacks path false)
          (cs.filter (applies env.toCallbacks path rf))) := by
  induction cs with
  | nil => exact ⟨rfl, nofun⟩
  | cons c cs ih =>
    rw [foldl_cons]
    cases hrf : rf && !c.is_fallback with
    | true =>
      rw [filter_cons_of_neg (by unfold applies; rw [hrf, Bool.not_true, Bool.false_and]; decide)]
      unfold object_manager_serialize_vtable
      rw [hrf]
      exact ih
    | false =>
      cases hfind : env.find c.slot path with
      | false =>
        rw [filter_cons_of_neg (by unfold applies; rw [hfind, Bool.and_false]; decide)]
        unfold object_manager_serialize_vtable
        rw [hrf, hfind]
        exact ih
      | true =>
        have hstep : object_manager_serialize_vtable env path rf fom ⟨false, [], none⟩ c =
            ⟨true, builtin_interfaces fom, some (c.interface,
              vtable_append_all_properties env.toCallbacks path false c)⟩ := by
          unfold object_manager_serialize_vtable
          rw [hrf, hfind]
          rfl
        have hw : (object_manager_serialize_vtable env path rf fom ⟨false, [], none⟩ c).found_something
            = true := by rw [hstep]
        obtain ⟨hfold, hfound⟩ := serialize_foldl_found hw
        rw [filter_cons_of_pos (by unfold applies; rw [hrf, hfind]; rfl)]
        refine ⟨hfound, fun _ => ?_⟩
        rw [hfold, hstep, add_foldl _ rfl]
        rfl

theorem added_filter (a : Added Val) : cs.foldl (object_added_vtable env path rf) a =
    (cs.filter (applies env.toCallbacks path rf)).foldl (added_vtable env path) a := by
  have hstep : ∀ a c, object_added_vtable env path rf a c =
      if applies env.toCallbacks path rf c then added_vtable env path a c else a := by
    intro a c
    unfold object_added_vtable applies
    cases rf && !c.is_fallback <;> cases env.find c.slot path <;> rfl
  rw [foldl_filter]
  congr 1
  funext a c
  exact hstep a c

/-- InterfacesAdded at one node, where an interface is open: none that comes has
    been handled, but that one. -/
theorem added_foldl {a : Added Val} (hg : Grouped (·.interface) (c :: cs))
    (ha : a.written.current = some (c.interface, l))
    (hnew : ∀ d ∈ cs, d.interface ≠ c.interface → d.interface ∉ a.handled) :
    (cs.foldl (added_vtable env path) a).written.interfaces = a.written.closed ++
      group_from (vtable_append_all_properties env.toCallbacks path true) c.interface l cs := by
  induction cs generalizing c l a with
  | nil =>
    unfold Serialized.interfaces
    rw [foldl_nil, ha]
    rfl
  | cons d cs ih =>
    have hrest : Grouped (·.interface) (d :: cs) := hg.sublist (sublist_cons_self c _)
    have hcurrent : a.written.current.map (·.1) = some c.interface := by rw [ha]; rfl
    rw [foldl_cons]
    unfold group_from added_vtable
    rw [hcurrent]
    by_cases hi : c.interface = d.interface
    · have hadd : a.written.add d.interface
          (vtable_append_all_properties env.toCallbacks path true d) =
          { a.written with current := some (d.interface, l ++
            vtable_append_all_properties env.toCallbacks path true d) } := by
        unfold Serialized.add
        rw [ha]
        exact if_pos hi
      rw [if_pos (congrArg some hi), if_pos hi, hadd]
      refine (ih hrest rfl ?_).trans ?_
      · intro e he hne
        exact hnew e (mem_cons_of_mem d he) (hi ▸ hne)
      · rw [hi]
    · have hnot := hnew d mem_cons_self (Ne.symm hi)
      have hadd : a.written.add d.interface
          (vtable_append_all_properties env.toCallbacks path true d) =
          ⟨a.written.found_something, a.written.closed ++ [(c.interface, l)], some (d.interface,
            vtable_append_all_properties env.toCallbacks path true d)⟩ := by
        unfold Serialized.add
        rw [ha]
        exact if_neg hi
      rw [if_neg (fun heq => hi (Option.some.inj heq)), if_neg hnot, if_neg hi, hadd]
      refine (ih hrest rfl ?_).trans ?_
      · intro e he hne hmem
        rcases mem_append.mp hmem with hmem | hmem
        · exact hnew e (mem_cons_of_mem d he) (hg.apart hi he) hmem
        · exact hne (mem_singleton.mp hmem)
      · rw [append_assoc]
        rfl

theorem removed_filter (a : Removed) : cs.foldl (object_removed_vtable env path rf) a =
    (cs.filter (applies env.toCallbacks path rf)).foldl removed_vtable a := by
  have hstep : ∀ a c, object_removed_vtable env path rf a c =
      if applies env.toCallbacks path rf c then removed_vtable a c else a := by
    intro a c
    unfold object_removed_vtable applies removed_vtable
    cases rf && !c.is_fallback with
    | true => rfl
    | false =>
      cases env.find c.slot path with
      | true => rfl
      | false => simp
  rw [foldl_filter]
  congr 1
  funext a c
  exact hstep a c

/-- InterfacesRemoved at one node, behind an interface. -/
theorem removed_foldl {β : Type} {f : BusNodeVTable → List β} {l : List β} {a : Removed}
    {names : List (List UInt8)} (hg : Grouped (·.interface) (c :: cs))
    (ha : a.previous_interface = some c.interface) (hnames : a.names = names ++ [c.interface])
    (hnew : ∀ d ∈ cs, d.interface ≠ c.interface → d.interface ∉ a.handled) :
    (cs.foldl removed_vtable a).names = names ++ (group_from f c.interface l cs).map (·.1) := by
  induction cs generalizing c l a names with
  | nil => exact hnames
  | cons d cs ih =>
    have hrest : Grouped (·.interface) (d :: cs) := hg.sublist (sublist_cons_self c _)
    rw [foldl_cons]
    unfold group_from removed_vtable
    rw [ha]
    by_cases hi : c.interface = d.interface
    · rw [if_pos (congrArg some hi), if_pos hi, hi]
      refine ih hrest (ha.trans (congrArg some hi)) (hi ▸ hnames) fun e he hne => ?_
      exact hnew e (mem_cons_of_mem d he) (hi ▸ hne)
    · have hnot := hnew d mem_cons_self (Ne.symm hi)
      rw [if_neg (fun heq => hi (Option.some.inj heq)), if_neg hnot, if_neg hi]
      refine (ih (l := f d) hrest rfl (congrArg (· ++ [d.interface]) hnames) ?_).trans ?_
      · intro e he hne hmem
        rcases mem_append.mp hmem with hmem | hmem
        · exact hnew e (mem_cons_of_mem d he) (hg.apart hi he) hmem
        · exact hne (mem_singleton.mp hmem)
      · rw [append_assoc]
        rfl

end loops

/-! ## Section 5: All nodes -/

section places
variable {Val : Type} {env : ManagerCallbacks Val} {b : Objects} {path : Path} {p q : Place}
  {ps before after : List Place}

/-- The path has an object manager itself. -/
def has_object_manager (b : Objects) (path : Path) : Bool := (b.nodes path).any (·.manages)

variable (env b path) in
/-- What GetManagedObjects writes for a path at one node. -/
def object_at (p : Place) : List (Path × Interfaces Val) :=
  if (vtables_at env.toCallbacks b path p).isEmpty then []
  else [(path, builtin_interfaces (has_object_manager b path) ++
    groups (vtable_append_all_properties env.toCallbacks path false)
      (vtables_at env.toCallbacks b path p))]

theorem serialize_path_eq {fom : Bool} :
    object_manager_serialize_path env b path p fom =
      let fom' := fom || !p.require_fallback && has_object_manager b p.node
      (if (vtables_at env.toCallbacks b path p).isEmpty then []
        else [(path, builtin_interfaces fom' ++
          groups (vtable_append_all_properties env.toCallbacks path false)
            (vtables_at env.toCallbacks b path p))], fom') := by
  unfold object_manager_serialize_path has_object_manager
  cases hn : b.nodes p.node with
  | none =>
    unfold vtables_at
    rw [hn]
    simp
  | some n =>
    rw [vtables_at_eq hn]
    dsimp only
    obtain ⟨hfound, hwritten⟩ := @serialize_foldl Val env path (vtables b n) p.require_fallback
      (fom || !p.require_fallback && n.manages)
    cases hempty : ((vtables b n).filter (applies env.toCallbacks path p.require_fallback)).isEmpty with
    | true =>
      rw [hempty] at hfound
      rw [hfound]
      rfl
    | false =>
      rw [hempty] at hfound
      rw [hfound, hwritten hfound]
      rfl

theorem serialize_fallbacks (h : ∀ p ∈ ps, p.require_fallback = true) {fom : Bool}
    (hfom : fom = has_object_manager b path) :
    serialize_places env b path ps fom = ps.flatMap (object_at env b path) := by
  subst hfom
  induction ps with
  | nil => rfl
  | cons p ps ih =>
    obtain ⟨hp, hrest⟩ := forall_mem_cons.mp h
    unfold serialize_places
    rw [serialize_path_eq, hp]
    dsimp only
    rw [Bool.not_true, Bool.false_and, Bool.or_false, ih hrest]
    rfl

/-- GetManagedObjects writes an object for each node that has a vtable for it. -/
theorem serialize_eq : object_manager_serialize_path_and_fallbacks env b path =
    (places path).flatMap (object_at env b path) := by
  unfold object_manager_serialize_path_and_fallbacks places
  unfold serialize_places
  rw [serialize_path_eq]
  dsimp only
  rw [Bool.not_false, Bool.true_and, Bool.false_or]
  rw [serialize_fallbacks (places_tail (p := ⟨path, false⟩) rfl) rfl]
  rfl

section
variable (h : vtables_at env.toCallbacks b path p = []) (handled : List (List UInt8))
include h handled

/-- At a node without a vtable that applies, the signals go on. -/
theorem added_empty : object_added_append_all_prefix env b path p handled = ([], handled) := by
  unfold object_added_append_all_prefix
  cases hn : b.nodes p.node with
  | none => rfl
  | some n =>
    rw [vtables_at_eq hn] at h
    dsimp only
    rw [added_filter, h]
    rfl

theorem removed_empty : object_removed_append_all_prefix env b path p handled = ([], handled) := by
  unfold object_removed_append_all_prefix
  cases hn : b.nodes p.node with
  | none => rfl
  | some n =>
    rw [vtables_at_eq hn] at h
    dsimp only
    rw [removed_filter, h]
    rfl

end

/-- The vtables of a node that apply are in groups. -/
theorem grouped_vtables_at (hb : Served b) :
    Grouped (·.interface) (vtables_at env.toCallbacks b path p) := by
  cases hn : b.nodes p.node with
  | none =>
    unfold vtables_at
    rw [hn]
    exact grouped_nil
  | some n =>
    rw [vtables_at_eq hn]
    refine Grouped.sublist ?_ filter_sublist
    have hgroup := hb.grouped p.node
    unfold vtable_list at hgroup
    rw [hn] at hgroup
    intro u v w hsub hkey
    have hslots : ([u, v, w].map (·.slot)).Sublist (n.list .node_vtable) := by
      have hall : ((vtables b n).map (·.slot)).Sublist (n.list .node_vtable) := by
        unfold vtables
        generalize n.list .node_vtable = l
        induction l with
        | nil => exact .refl _
        | cons s l ih =>
          rw [filterMap_cons]
          cases hs : node_vtable b s with
          | none => exact ih.cons s
          | some c =>
            rw [map_cons, (node_vtable_eq_some.mp hs).1]
            exact ih.cons_cons s
      exact (hsub.map _).trans hall
    have hof : ∀ c ∈ vtables b n, interface_of b c.slot = some c.interface := by
      intro c hc
      obtain ⟨-, x, hx, -, hi, -⟩ := mem_vtables.mp hc
      rw [interface_of_eq hx, hi]
    have hu := hof u (hsub.subset (by simp))
    have hv := hof v (hsub.subset (by simp))
    have hw := hof w (hsub.subset (by simp))
    have := hgroup u.slot v.slot w.slot hslots (by rw [hu, hw]; exact congrArg some hkey)
    rw [hu, hv] at this
    exact Option.some.inj this

/-- The first node that has a vtable for the path. -/
theorem added_first (hb : Served b) : ( object_added_append_all_prefix env b path p []).1 =
    groups (vtable_append_all_properties env.toCallbacks path true)
      (vtables_at env.toCallbacks b path p) := by
  have hg : Grouped (·.interface) (vtables_at env.toCallbacks b path p) := grouped_vtables_at hb
  unfold object_added_append_all_prefix
  cases hn : b.nodes p.node with
  | none =>
    unfold vtables_at
    rw [hn]
    rfl
  | some n =>
    rw [vtables_at_eq hn] at hg ⊢
    dsimp only
    rw [added_filter]
    generalize (vtables b n).filter (applies env.toCallbacks path p.require_fallback) = cs at hg
    cases cs with
    | nil => rfl
    | cons c cs =>
      refine (added_foldl hg rfl ?_).trans rfl
      intro d _ hne hmem
      exact hne (mem_singleton.mp hmem)

theorem removed_first (hb : Served b) : ( object_removed_append_all_prefix env b path p []).1 =
    (groups (vtable_append_all_properties env.toCallbacks path true)
      (vtables_at env.toCallbacks b path p)).map (·.1) := by
  have hg : Grouped (·.interface) (vtables_at env.toCallbacks b path p) := grouped_vtables_at hb
  unfold object_removed_append_all_prefix
  cases hn : b.nodes p.node with
  | none =>
    unfold vtables_at
    rw [hn]
    rfl
  | some n =>
    rw [vtables_at_eq hn] at hg ⊢
    dsimp only
    rw [removed_filter]
    generalize (vtables b n).filter (applies env.toCallbacks path p.require_fallback) = cs at hg
    cases cs with
    | nil => rfl
    | cons c cs =>
      refine (removed_foldl hg rfl (show _ = [] ++ [c.interface] from rfl) ?_).trans (nil_append _)
      intro d _ hne hmem
      exact hne (mem_singleton.mp hmem)

section
variable (h : ∀ p ∈ ps, vtables_at env.toCallbacks b path p = []) (handled : List (List UInt8))
include h handled

theorem added_places_empty : added_places env b path ps handled = [] := by
  induction ps with
  | nil => rfl
  | cons p ps ih =>
    obtain ⟨hp, hrest⟩ := forall_mem_cons.mp h
    unfold added_places
    rw [added_empty hp]
    exact ih hrest

theorem removed_places_empty : removed_places env b path ps handled = [] := by
  induction ps with
  | nil => rfl
  | cons p ps ih =>
    obtain ⟨hp, hrest⟩ := forall_mem_cons.mp h
    unfold removed_places
    rw [removed_empty hp]
    exact ih hrest

end

section
variable (hb : Served b) (hbefore : ∀ p ∈ before, vtables_at env.toCallbacks b path p = [])
  (hafter : ∀ p ∈ after, vtables_at env.toCallbacks b path p = [])
include hb hbefore hafter

/-- The signals, when the vtables are all at one node. -/
theorem added_places_one : added_places env b path (before ++ q :: after) [] =
      groups (vtable_append_all_properties env.toCallbacks path true)
        (vtables_at env.toCallbacks b path q) := by
  induction before with
  | nil =>
    rw [nil_append]
    unfold added_places
    dsimp only
    rw [added_first hb, added_places_empty hafter, append_nil]
  | cons p before ih =>
    obtain ⟨hp, hrest⟩ := forall_mem_cons.mp hbefore
    rw [cons_append]
    unfold added_places
    rw [added_empty hp]
    exact ih hrest

theorem removed_places_one : removed_places env b path (before ++ q :: after) [] =
      (groups (vtable_append_all_properties env.toCallbacks path true)
        (vtables_at env.toCallbacks b path q)).map (·.1) := by
  induction before with
  | nil =>
    rw [nil_append]
    unfold removed_places
    dsimp only
    rw [removed_first hb, removed_places_empty hafter, append_nil]
  | cons p before ih =>
    obtain ⟨hp, hrest⟩ := forall_mem_cons.mp hbefore
    rw [cons_append]
    unfold removed_places
    rw [removed_empty hp]
    exact ih hrest

end

end places

/-! ## Section 6: The object manager of a path -/

section manager
variable {b : Objects} {m p q : Path} {n : BusNode}

/-- From below an object manager, the way up leads to one. -/
theorem find_object_manager_some (hb : Managed b) (hm : has_object_manager b m = true)
    (h : paths.Above m q) : ∀ fuel, q.length < fuel → (b.nodes q).isSome →
      (find_object_manager b fuel q).isSome := by
  induction h with
  | self =>
    intro fuel hfuel _
    obtain ⟨fuel, rfl⟩ := exists_eq_succ_of_ne_zero (show fuel ≠ 0 by omega)
    unfold has_object_manager at hm
    unfold find_object_manager
    cases hn : b.nodes m with
    | none =>
      rw [hn] at hm
      cases hm
    | some n =>
      rw [hn, Option.any_some] at hm
      dsimp only
      rw [hm]
      rfl
  | @up q r hparent _ ih =>
    intro fuel hfuel hsome
    obtain ⟨fuel, rfl⟩ := exists_eq_succ_of_ne_zero (show fuel ≠ 0 by omega)
    obtain ⟨n, hn⟩ := Option.isSome_iff_exists.mp hsome
    have hlt := parent_path_lt hparent
    unfold find_object_manager
    rw [hn]
    dsimp only
    split
    · rfl
    · rw [hb.up q n hn, show parent_path q = some r from hparent]
      exact ih fuel (by omega) (hb.parent q r hparent hsome)

/-- The nearest node is below the object manager, or at it. -/
theorem nearest_node (hm : (b.nodes m).isSome) (h : paths.Above m p) :
    ∃ q, (p :: prefixes p).find? (fun p => (b.nodes p).isSome) = some q ∧ (b.nodes q).isSome ∧
      paths.Above m q := by
  induction h with
  | self => exact ⟨m, find?_cons_of_pos hm, hm, .self⟩
  | @up p r hparent habove ih =>
    by_cases hp : (b.nodes p).isSome
    · exact ⟨p, find?_cons_of_pos hp, hp, .up hparent habove⟩
    · rw [find?_cons_of_neg (p := fun p => (b.nodes p).isSome) hp, prefixes_cons hparent]
      exact ih

theorem find_parent_manager (hb : Managed b) (hm : has_object_manager b m = true)
    (h : object_path_startswith p m = true) :
    ∃ q, bus_find_parent_object_manager b p = (some q, has_object_manager b p) := by
  have hsome : (b.nodes m).isSome := by
    unfold has_object_manager at hm
    cases hn : b.nodes m with
    | none =>
      rw [hn] at hm
      cases hm
    | some n => rfl
  obtain ⟨q, hfind, hq, habove⟩ := nearest_node hsome (above_of_startswith h)
  obtain ⟨r, hr⟩ := Option.isSome_iff_exists.mp
    (find_object_manager_some hb hm habove (q.length + 1) (lt_succ_self _) hq)
  refine ⟨r, ?_⟩
  unfold bus_find_parent_object_manager
  rw [hfind, Option.bind_some, hr]
  rfl

end manager

/-! ## Section 7: Agreement -/

section agreement
variable {Val : Type} {env : ManagerCallbacks Val} {b : Objects} {m path : Path} {p q : Place}
  {s : List Path}

/-- A property, and the vtable it is declared in. -/
abbrev Declared := BusNodeVTable × VtableEntry

variable (env path) in
/-- It stands in a message with its name and its value. -/
def Declared.property (d : Declared) : List UInt8 × Val :=
  (d.2.member, env.get d.1.slot d.2 path)

/-- It is left out of signals. -/
def Declared.invalidation_only (d : Declared) : Bool :=
  d.2.has_flag SD_BUS_VTABLE_PROPERTY_EMITS_INVALIDATION

variable (env b path) in
/-- A property of the interface that is declared for the path. -/
def Declared.Of (d : Declared) (interface : List UInt8) : Prop :=
  (∃ p ∈ places path, d.1 ∈ vtables_at env.toCallbacks b path p) ∧ d.1.interface = interface ∧
    d.2 ∈ d.1.vtable.entries

variable (env b path) in
/-- A reply and a signal have the same interfaces, and the signal the same
    properties except those that are left out of signals. -/
structure SameInterfaces (reply signal : Interfaces Val) : Prop where
  names : signal.map (·.1) = reply.map (·.1)
  properties : ∀ i l l', (i, l) ∈ reply → (i, l') ∈ signal → ∃ ds : List Declared,
    (∀ d ∈ ds, d.Of env b path i) ∧ l = ds.map (Declared.property env path) ∧
      l' = (ds.filter fun d => !d.invalidation_only).map (Declared.property env path)

variable (env b) in
/-- GetManagedObjects has each object once and each of its interfaces once, and
    the two signals for it have the same interfaces. -/
def ManagedAgrees (m : Path) : Prop :=
  ∀ reply, process_get_managed_objects env b m = .ok (some reply) →
    (reply.map (·.1)).Nodup ∧ ∀ x ∈ reply, (x.2.map (·.1)).Nodup ∧
      (∃ q l, sd_bus_emit_object_added env b x.1 = some (q, l) ∧
        SameInterfaces env b x.1 x.2 l) ∧
      ∃ q, sd_bus_emit_object_removed env b x.1 = some (q, x.2.map (·.1))

variable (env b) in
/-- The vtables that apply to the path are all at one node. -/
def OneNode (path : Path) : Prop :=
  ((places path).filter fun p => !(vtables_at env.toCallbacks b path p).isEmpty).length ≤ 1

/-- The properties of a vtable that are visible. -/
def visible_properties (c : BusNodeVTable) : List Declared :=
  if c.vtable.flags &&& SD_BUS_VTABLE_HIDDEN != 0 then []
  else (c.vtable.entries.filter (appended false)).map fun e => (c, e)

theorem append_all_reply (c : BusNodeVTable) :
    vtable_append_all_properties env.toCallbacks path false c =
      (visible_properties c).map (Declared.property env path) := by
  unfold vtable_append_all_properties visible_properties
  split
  · rfl
  · rw [map_map]
    rfl

theorem append_all_signal (c : BusNodeVTable) :
    vtable_append_all_properties env.toCallbacks path true c =
      ((visible_properties c).filter fun d => !d.invalidation_only).map
        (Declared.property env path) := by
  have happended : ∀ e, appended true e = (appended false e &&
      !e.has_flag SD_BUS_VTABLE_PROPERTY_EMITS_INVALIDATION) := by
    intro e
    unfold appended
    rw [Bool.true_and, Bool.false_and, Bool.not_false, Bool.and_true]
  unfold vtable_append_all_properties visible_properties
  split
  · rfl
  · rw [filter_map, map_map, filter_filter]
    refine congrArg₂ map rfl (filter_congr fun e _ => ?_)
    rw [happended, Bool.and_comm]
    rfl

theorem of_visible {c : BusNodeVTable} {d : Declared} (h : d ∈ visible_properties c) :
    d.1 = c ∧ d.2 ∈ c.vtable.entries := by
  unfold visible_properties at h
  split at h
  · cases h
  · obtain ⟨e, he, rfl⟩ := mem_map.mp h
    exact ⟨rfl, (mem_filter.mp he).1⟩

/-- What every object has is reserved. -/
theorem builtin_reserved {fom : Bool} {x : List UInt8 × List (List UInt8 × Val)}
    (h : x ∈ builtin_interfaces fom) : reserved_interface x.1 = true ∧ x.2 = [] := by
  unfold builtin_interfaces at h
  cases fom with
  | true =>
    simp only [if_pos, mem_append, mem_cons, not_mem_nil, or_false] at h
    rcases h with (rfl | rfl | rfl) | rfl <;> exact ⟨by dsimp only; decide +kernel, rfl⟩
  | false =>
    simp only [Bool.false_eq_true, if_false, append_nil, mem_cons, not_mem_nil,
      or_false] at h
    rcases h with rfl | rfl | rfl <;> exact ⟨by dsimp only; decide +kernel, rfl⟩

theorem builtin_names (fom : Bool) : ((@builtin_interfaces Val fom).map (·.1)).Nodup := by
  cases fom with
  | true =>
    change [ascii "org.freedesktop.DBus.Peer", ascii "org.freedesktop.DBus.Introspectable",
      ascii "org.freedesktop.DBus.Properties", ascii "org.freedesktop.DBus.ObjectManager"].Nodup
    decide +kernel
  | false =>
    change [ascii "org.freedesktop.DBus.Peer", ascii "org.freedesktop.DBus.Introspectable",
      ascii "org.freedesktop.DBus.Properties"].Nodup
    decide +kernel

theorem groups_not_reserved (hb : Served b) {β : Type} {f : BusNodeVTable → List β}
    {x : List UInt8 × List β} (h : x ∈ groups f (vtables_at env.toCallbacks b path p)) :
    reserved_interface x.1 = false := by
  obtain ⟨c, hc, hi⟩ := mem_groups h
  rw [← hi]
  exact (interface_valid hb hc).2

/-- An object has each of its interfaces once. -/
theorem interfaces_nodup (hb : Served b) (fom : Bool)
    (f : BusNodeVTable → List (List UInt8 × Val)) :
    ((builtin_interfaces fom ++ groups f (vtables_at env.toCallbacks b path p) :
      Interfaces Val).map (·.1)).Nodup := by
  rw [map_append, nodup_append]
  refine ⟨builtin_names fom, groups_nodup (grouped_vtables_at hb), ?_⟩
  rintro i hi _ hi' rfl
  obtain ⟨x, hx, rfl⟩ := mem_map.mp hi
  obtain ⟨y, hy, heq⟩ := mem_map.mp hi'
  have hreserved := (builtin_reserved hx).1
  rw [← heq, groups_not_reserved hb hy] at hreserved
  cases hreserved

theorem same_interfaces (hb : Served b) (hp : p ∈ places path) (fom : Bool) :
    SameInterfaces env b path
      (builtin_interfaces fom ++ groups (vtable_append_all_properties env.toCallbacks path false)
        (vtables_at env.toCallbacks b path p))
      (builtin_interfaces fom ++ groups (vtable_append_all_properties env.toCallbacks path true)
        (vtables_at env.toCallbacks b path p)) := by
  have hreply : groups (vtable_append_all_properties env.toCallbacks path false)
      (vtables_at env.toCallbacks b path p) =
      (groups visible_properties (vtables_at env.toCallbacks b path p)).map fun x =>
        (x.1, x.2.map (Declared.property env path)) := by
    rw [show vtable_append_all_properties env.toCallbacks path false = _ from
      funext append_all_reply]
    exact groups_map (fun l l' => map_append)
  have hsignal : groups (vtable_append_all_properties env.toCallbacks path true)
      (vtables_at env.toCallbacks b path p) =
      (groups visible_properties (vtables_at env.toCallbacks b path p)).map fun x =>
        (x.1, (x.2.filter fun d => !d.invalidation_only).map (Declared.property env path)) := by
    rw [show vtable_append_all_properties env.toCallbacks path true = _ from
      funext append_all_signal]
    refine groups_map (g := fun l => (l.filter fun d : Declared => !d.invalidation_only).map
      (Declared.property env path)) fun l l' => ?_
    rw [filter_append, map_append]
  refine ⟨?_, ?_⟩
  · rw [hreply, hsignal, map_append, map_append, map_map, map_map]
    rfl
  · intro i l l' hl hl'
    rcases mem_append.mp hl with hl | hl <;> rcases mem_append.mp hl' with hl' | hl'
    · obtain ⟨-, rfl⟩ := builtin_reserved hl
      obtain ⟨-, rfl⟩ := builtin_reserved hl'
      exact ⟨[], nofun, rfl, rfl⟩
    -- an interface that is reserved is not one of a vtable
    · have := (builtin_reserved hl).1
      rw [groups_not_reserved hb hl'] at this
      cases this
    · have := (builtin_reserved hl').1
      rw [groups_not_reserved hb hl] at this
      cases this
    · rw [hreply] at hl
      rw [hsignal] at hl'
      obtain ⟨⟨j, ds⟩, hds, heq⟩ := mem_map.mp hl
      obtain ⟨⟨j', ds'⟩, hds', heq'⟩ := mem_map.mp hl'
      rw [Prod.mk.injEq] at heq heq'
      obtain ⟨hj, rfl⟩ := heq
      obtain ⟨hj', rfl⟩ := heq'
      have hnodup : ((groups visible_properties (vtables_at env.toCallbacks b path p)).map
          (·.1)).Nodup := groups_nodup (grouped_vtables_at hb)
      have hsame : (j, ds) = (j', ds') :=
        inj_on_of_nodup_map hnodup hds hds' (hj.trans hj'.symm)
      obtain ⟨-, rfl⟩ := Prod.mk.inj hsame
      refine ⟨ds, fun d hd => ?_, rfl, rfl⟩
      obtain ⟨c, hc, hi, hdc⟩ := mem_groups_snd hds hd
      obtain ⟨rfl, he⟩ := of_visible hdc
      exact ⟨⟨p, hp, hc⟩, hi.trans hj, he⟩

variable {x : Path × Interfaces Val}

/-- What the reply has for a path, when its vtables are all at one node. -/
theorem object_of_one_node (h : OneNode env b path)
    (hx : x ∈ object_manager_serialize_path_and_fallbacks env b path) :
    ∃ before p after, places path = before ++ p :: after ∧
      (∀ q ∈ before, vtables_at env.toCallbacks b path q = []) ∧
      (∀ q ∈ after, vtables_at env.toCallbacks b path q = []) ∧
      x = (path, builtin_interfaces (has_object_manager b path) ++
        groups (vtable_append_all_properties env.toCallbacks path false)
          (vtables_at env.toCallbacks b path p)) := by
  rw [serialize_eq] at hx
  obtain ⟨q, hq, hx⟩ := mem_flatMap.mp hx
  unfold object_at at hx
  split at hx
  · cases hx
  next hne =>
  have hmem : q ∈ (places path).filter fun p => !(vtables_at env.toCallbacks b path p).isEmpty := by
    rw [Bool.not_eq_true] at hne
    exact mem_filter.mpr ⟨hq, by rw [hne]; rfl⟩
  unfold OneNode at h
  have hone : (places path).filter (fun p => !(vtables_at env.toCallbacks b path p).isEmpty) = [q] := by
    match hl : (places path).filter fun p => !(vtables_at env.toCallbacks b path p).isEmpty with
    | [] =>
      rw [hl] at hmem
      cases hmem
    | [r] =>
      rw [hl] at hmem
      rw [mem_singleton.mp hmem]
    | _ :: _ :: _ =>
      rw [hl] at h
      simp at h
  obtain ⟨before, after, hplaces, hbefore, -, hafter⟩ := filter_eq_cons_iff.mp hone
  refine ⟨before, q, after, hplaces, fun r hr => ?_, fun r hr => ?_, mem_singleton.mp hx⟩
  · have := hbefore r hr
    rwa [Bool.not_eq_true, Bool.not_eq_false', List.isEmpty_iff] at this
  · have := List.filter_eq_nil_iff.mp hafter r hr
    rwa [Bool.not_eq_true, Bool.not_eq_false', List.isEmpty_iff] at this

/-- The reply has a path as often as it has nodes with a vtable for it. -/
theorem serialize_paths : (object_manager_serialize_path_and_fallbacks env b path).map (·.1) =
    List.replicate ((places path).filter fun p =>
      !(vtables_at env.toCallbacks b path p).isEmpty).length path := by
  rw [serialize_eq]
  induction places path with
  | nil => rfl
  | cons p ps ih =>
    rw [flatMap_cons, map_append, ih]
    unfold object_at
    cases h : (vtables_at env.toCallbacks b path p).isEmpty with
    | true =>
      rw [filter_cons_of_neg (by rw [h]; decide)]
      rfl
    | false =>
      rw [filter_cons_of_pos (by rw [h]; rfl), length_cons, replicate_succ]
      rfl

theorem reply_nodup_iff (hs : s.Nodup) :
    ((s.flatMap fun path => object_manager_serialize_path_and_fallbacks env b path).map
      (·.1)).Nodup ↔ ∀ path ∈ s, OneNode env b path := by
  rw [map_flatMap, nodup_flatMap]
  simp only [serialize_paths, nodup_replicate]
  refine ⟨And.left, fun h => ⟨h, ?_⟩⟩
  refine hs.imp fun {p q} hne => ?_
  intro x hx hx'
  exact hne ((eq_of_mem_replicate hx).symm.trans (eq_of_mem_replicate hx'))

/-- If the vtables for a path are all at one node, the signals have what the
    reply has. -/
theorem signals_agree (hb : Managed b) (hm : has_object_manager b m = true)
    (hpath : object_path_startswith path m = true) (h : OneNode env b path)
    (hx : x ∈ object_manager_serialize_path_and_fallbacks env b path) : (x.2.map (·.1)).Nodup ∧
      (∃ q l, sd_bus_emit_object_added env b x.1 = some (q, l) ∧ SameInterfaces env b x.1 x.2 l) ∧
      ∃ q, sd_bus_emit_object_removed env b x.1 = some (q, x.2.map (·.1)) := by
  obtain ⟨before, p, after, hplaces, hbefore, hafter, rfl⟩ := object_of_one_node h hx
  obtain ⟨q, hq⟩ := find_parent_manager hb hm hpath
  have hp : p ∈ places path := hplaces ▸ mem_append_right _ mem_cons_self
  have hsame : SameInterfaces env b path _ _ :=
    same_interfaces hb.toServed hp (has_object_manager b path)
  refine ⟨interfaces_nodup hb.toServed _ _, ⟨q, _, ?_, hsame⟩, q, ?_⟩
  · unfold sd_bus_emit_object_added object_added_append_all
    rw [hq]
    rw [hplaces, added_places_one hb.toServed hbefore hafter]
    rfl
  · unfold sd_bus_emit_object_removed object_removed_append_all
    rw [hq, ← hsame.names]
    rw [hplaces, removed_places_one hb.toServed hbefore hafter, map_append]
    rfl

/-- GetManagedObjects agrees with the signals if and only if, for each path below
    the object manager, the vtables are all at one node. -/
theorem managed_agrees_iff (hb : Managed b) (hm : has_object_manager b m = true) :
    ManagedAgrees env b m ↔ ∀ n s, b.nodes m = some n → get_child_nodes env b m n = .ok s →
      ∀ path ∈ s, OneNode env b path := by
  obtain ⟨n, hn, hmanages⟩ : ∃ n, b.nodes m = some n ∧ n.manages = true := by
    unfold has_object_manager at hm
    cases hn : b.nodes m with
    | none =>
      rw [hn] at hm
      cases hm
    | some n =>
      rw [hn] at hm
      exact ⟨n, rfl, hm⟩
  have hprocess : ∀ s, get_child_nodes env b m n = .ok s → process_get_managed_objects env b m =
      .ok (some (s.flatMap fun path => object_manager_serialize_path_and_fallbacks env b path)) := by
    intro s hs
    unfold process_get_managed_objects
    rw [hn]
    dsimp only
    rw [hmanages, hs]
    rfl
  constructor
  · intro h n' s hn' hs
    obtain rfl := Option.some.inj (hn.symm.trans hn')
    exact (reply_nodup_iff (below_child_nodes hs).1).mp (h _ (hprocess s hs)).1
  · intro h reply hreply
    cases hs : get_child_nodes env b m n with
    | ok s =>
      have hall := h n s hn hs
      have hbelow := below_child_nodes hs
      rw [hprocess s hs] at hreply
      cases hreply
      refine ⟨(reply_nodup_iff hbelow.1).mpr hall, fun x hx => ?_⟩
      obtain ⟨path, hpath, hx⟩ := mem_flatMap.mp hx
      exact signals_agree hb hm (hbelow.2 path hpath) (hall path hpath) hx
    | err e =>
      unfold process_get_managed_objects at hreply
      rw [hn] at hreply
      dsimp only at hreply
      rw [hmanages, hs] at hreply
      cases hreply
    | abort => exact absurd hs (get_child_nodes_ends hb hn)

end agreement

/-! ## Section 8: An object at two nodes -/

/-- The callbacks of the other example, and no enumerators. -/
def no_children : ManagerCallbacks Nat := { one_value with enumerate := fun _ _ => [] }

/-- The same object tree with an object manager at the root. -/
def two_nodes : Objects :=
  ((ObjectCall.add_object_manager 20 false root).run { two_parts with memory := 20 }).2

theorem two_nodes_managed : Managed two_nodes := by
  refine managed_of_reachable (.step (a := .add_object_manager 20 false root) two_parts_reachable
    ⟨?_, ?_, rfl⟩)
  · intro path hpath
    have hsome : (ObjectCall.add_object_manager 20 false root).node_path = some root := by
      decide +kernel
    obtain rfl : root = path := Option.some.inj (hsome.symm.trans hpath)
    unfold AllOrNone
    decide +kernel
  · decide +kernel

/-- `/a` has vtables at two nodes. -/
theorem managed_agrees_two_nodes : ManagedAgrees no_children two_nodes root ↔
    ∀ n s, two_nodes.nodes root = some n → get_child_nodes no_children two_nodes root n = .ok s →
      ∀ path ∈ s, OneNode no_children two_nodes path :=
  managed_agrees_iff two_nodes_managed (by decide +kernel)

/-- The paths in a reply. -/
def reply_paths : Outcome (Option (List (Path × Interfaces Nat))) → List Path
  | .ok (some reply) => reply.map (·.1)
  | _ => []

/-- It is in the reply twice. -/
theorem managed_objects_twice : ¬ ∀ (env : ManagerCallbacks Nat) (b : Objects) (m : Path),
    Managed b → has_object_manager b m = true → ManagedAgrees env b m := by
  intro h
  have hreply : reply_paths (process_get_managed_objects no_children two_nodes root) =
      [ascii "/a", ascii "/a"] := by decide +kernel
  have hagree := h no_children two_nodes root two_nodes_managed (by decide +kernel)
  unfold ManagedAgrees at hagree
  cases hrun : process_get_managed_objects no_children two_nodes root with
  | ok r =>
    rw [hrun] at hreply hagree
    cases r with
    | none => cases hreply
    | some reply =>
      have hnodup := (hagree reply rfl).1
      have hreply : reply.map (·.1) = [ascii "/a", ascii "/a"] := hreply
      rw [hreply] at hnodup
      revert hnodup
      decide +kernel
  | err e =>
    rw [hrun] at hreply
    cases hreply
  | abort =>
    rw [hrun] at hreply
    cases hreply

end SdCompat.Objects
