import SdCompat.Lib.Ancestors
import SdCompat.SdBus.Objects

/-! # The nodes of the object tree (bus-objects.c)

    Making a node makes those above it that are missing; collecting a node that
    nothing keeps any more collects those above it that it was the last to keep.
-/

namespace SdCompat.Objects

open Bus Call List Objects

/-! ## Section 1: Paths -/

variable {s : List UInt8}

theorem strrchr_lt {c : UInt8} {i : Nat} (h : strrchr c s = some i) : i < s.length := by
  induction s generalizing i with
  | nil => cases h
  | cons x s ih =>
    unfold strrchr at h
    cases hs : strrchr c s with
    | some j =>
      rw [hs] at h
      cases h
      exact Nat.succ_lt_succ (ih hs)
    | none =>
      rw [hs] at h
      dsimp only at h
      split at h
      · cases h
        exact Nat.succ_pos _
      · cases h

theorem strrchr_isSome {c : UInt8} (h : c ∈ s) : (strrchr c s).isSome := by
  induction s with
  | nil => cases h
  | cons x s ih =>
    unfold strrchr
    cases hs : strrchr c s with
    | some j => rfl
    | none =>
      rcases mem_cons.mp h with rfl | hmem
      · simp
      · rw [hs] at ih
        exact absurd (ih hmem) (by simp)

/-- The path begins with a slash. -/
def Slash (path : Path) : Prop := path.head? = some 0x2f

theorem Slash.of_valid {path : Path} (h : object_path_is_valid path = true) : Slash path := by
  unfold object_path_is_valid at h
  split at h
  · rfl
  · rfl
  · cases h

variable {p r : Path}

theorem parent_path_lt (h : parent_path p = some r) : r.length < p.length := by
  unfold parent_path at h
  split at h
  · cases h
  · next hroot =>
    obtain ⟨e, he, rfl⟩ := Option.map_eq_some_iff.mp h
    have hlt := strrchr_lt he
    rw [length_take]
    -- a path of one character with a slash in it is the root
    have hlong : 1 < p.length := by
      by_contra hshort
      match p, hshort, hlt with
      | [x], _, hlt =>
        unfold strrchr strrchr at he
        dsimp only at he
        split at he
        · next hx =>
          rw [hx] at hroot
          exact hroot rfl
        · cases he
      | _ :: _ :: _, hshort, _ => exact hshort (by simp)
    omega

theorem parent_path_pos (h : parent_path p = some r) : 0 < r.length := by
  have hlt := parent_path_lt h
  unfold parent_path at h
  split at h
  · cases h
  · obtain ⟨e, _, rfl⟩ := Option.map_eq_some_iff.mp h
    rw [length_take] at hlt ⊢
    omega

/-- The paths, with the way up. -/
def paths : Forest Path := ⟨parent_path, List.length, parent_path_lt⟩

theorem Slash.parent (hp : Slash p) (h : parent_path p = some r) : Slash r := by
  unfold parent_path at h
  split at h
  · cases h
  · obtain ⟨e, _, rfl⟩ := Option.map_eq_some_iff.mp h
    cases p with
    | nil => cases hp
    | cons x s =>
      rw [show max 1 e = (max 1 e - 1) + 1 by omega]
      exact hp

/-- It has a parent, unless it is the root. -/
theorem Slash.has_parent (hp : Slash p) : (p == root || (parent_path p).isSome) = true := by
  by_cases hroot : p = root
  · simp [hroot]
  · have hmem : (0x2f : UInt8) ∈ p := mem_of_mem_head? hp
    have hsome := strrchr_isSome hmem
    unfold parent_path
    simp [hroot, hsome]

/-! ## Section 2: The tree -/

/-- What is registered: which slots, of which type, at which path. -/
abbrev Registry := SlotId → BusSlotType → Path → Prop

/-- Something is registered at this path. -/
def Registry.At (reg : Registry) (q : Path) : Prop := ∃ s t, reg s t q

/-- The nodes are linked parent to child, and what is registered at them is in
    their lists. -/
structure Tree (b : Objects) (reg : Registry) : Prop where
  parent : ∀ q n, b.nodes q = some n → n.parent = parent_path q
  up : ∀ c q, (b.nodes c).isSome → parent_path c = some q → (b.nodes q).isSome
  child : ∀ q n c, b.nodes q = some n → (c ∈ n.child ↔ parent_path c = some q ∧ (b.nodes c).isSome)
  child_nodup : ∀ q n, b.nodes q = some n → n.child.Nodup
  list : ∀ q n t s, b.nodes q = some n → (s ∈ n.list t ↔ reg s t q)
  list_nodup : ∀ q n t, b.nodes q = some n → (n.list t).Nodup
  reg_node : ∀ s t q, reg s t q → (b.nodes q).isSome

/-- The slots and the tables of members are the same. -/
structure Frame (b b' : Objects) : Prop where
  slots : b'.slots = b.slots
  next_slot : b'.next_slot = b.next_slot
  members : b'.members = b.members

theorem Frame.refl (b : Objects) : Frame b b := ⟨rfl, rfl, rfl⟩

theorem Frame.trans {b b' b'' : Objects} (h : Frame b b') (h' : Frame b' b'') : Frame b b'' :=
  ⟨h'.slots.trans h.slots, h'.next_slot.trans h.next_slot, h'.members.trans h.members⟩

section tree
variable {b b' : Objects} {reg : Registry} {path p q : Path} {n m : BusNode}

@[simp] theorem set_node_self : (b.set_node path (some n)).nodes path = some n := if_pos rfl

theorem set_node_of_ne {o : Option BusNode} (h : q ≠ path) :
    (b.set_node path o).nodes q = b.nodes q :=
  if_neg h

theorem Frame.set_node (h : Frame b b') (o : Option BusNode) : Frame b (b'.set_node path o) :=
  ⟨h.slots, h.next_slot, h.members⟩

/-- Only the nodes matter. -/
theorem Tree.congr (h : Tree b reg) (hn : b'.nodes = b.nodes) : Tree b' reg := by
  constructor
  all_goals rw [hn]
  exacts [h.parent, h.up, h.child, h.child_nodup, h.list, h.list_nodup, h.reg_node]

/-- What a node looks like in a tree. -/
structure Fits (nodes : Path → Option BusNode) (reg : Registry) (q : Path) (n : BusNode) : Prop where
  parent : n.parent = parent_path q
  child : ∀ c, c ∈ n.child ↔ parent_path c = some q ∧ (nodes c).isSome
  child_nodup : n.child.Nodup
  list : ∀ t s, s ∈ n.list t ↔ reg s t q
  list_nodup : ∀ t, (n.list t).Nodup

theorem Tree.fits (h : Tree b reg) (hn : b.nodes q = some n) : Fits b.nodes reg q n :=
  ⟨h.parent q n hn, fun c => h.child q n c hn, h.child_nodup q n hn, fun t s => h.list q n t s hn,
    fun t => h.list_nodup q n t hn⟩

theorem Tree.of_fits (h : ∀ q n, b.nodes q = some n → Fits b.nodes reg q n)
    (hup : ∀ c q, (b.nodes c).isSome → parent_path c = some q → (b.nodes q).isSome)
    (hreg : ∀ s t q, reg s t q → (b.nodes q).isSome) : Tree b reg :=
  ⟨fun q n hn => (h q n hn).parent, hup, fun q n c hn => (h q n hn).child c,
    fun q n hn => (h q n hn).child_nodup, fun q n t s hn => (h q n hn).list t s,
    fun q n t hn => (h q n hn).list_nodup t, hreg⟩

/-- A node whose children are the same still fits. -/
theorem Fits.congr {nodes nodes' : Path → Option BusNode} (h : Fits nodes reg q n)
    (hn : ∀ c, parent_path c = some q → ((nodes' c).isSome ↔ (nodes c).isSome)) :
    Fits nodes' reg q n := by
  refine ⟨h.parent, fun c => ?_, h.child_nodup, h.list, h.list_nodup⟩
  rw [h.child]
  exact and_congr_right fun hc => (hn c hc).symm

/-- The object tree with a new node, linked from its parent. -/
def Objects.link (b : Objects) (path : Path) : Objects :=
  match parent_path path with
  | none => b.set_node path (some ⟨parent_path path, [], fun _ => []⟩)
  | some p =>
    (b.set_node path (some ⟨parent_path path, [], fun _ => []⟩)).set_node p
      ((b.nodes p).map fun n => { n with child := path :: n.child })

theorem link_isSome (hup : ∀ p, parent_path path = some p → (b.nodes p).isSome) (q : Path) :
    ((b.link path).nodes q).isSome ↔ (b.nodes q).isSome ∨ q = path := by
  unfold link
  cases hp : parent_path path with
  | none =>
    by_cases hq : q = path
    · simp [hq]
    · simp [hq, set_node_of_ne]
  | some p =>
    by_cases hqp : q = p
    · subst hqp
      have hsome := hup q hp
      simp [set_node, hsome]
    · rw [set_node_of_ne hqp]
      by_cases hq : q = path
      · simp [hq]
      · simp [hq, set_node_of_ne]

theorem link_other (hq : q ≠ path) (hp : parent_path path ≠ some q) :
    (b.link path).nodes q = b.nodes q := by
  unfold link
  cases hpar : parent_path path with
  | none => exact set_node_of_ne hq
  | some p =>
    have hqp : q ≠ p := by
      rintro rfl
      exact hp hpar
    exact (set_node_of_ne hqp).trans (set_node_of_ne hq)

theorem parent_ne (h : parent_path path = some p) : p ≠ path := by
  rintro rfl
  exact Nat.lt_irrefl _ (parent_path_lt h)

theorem link_self : (b.link path).nodes path = some ⟨parent_path path, [], fun _ => []⟩ := by
  unfold link
  cases hpar : parent_path path with
  | none => exact set_node_self
  | some p => exact (set_node_of_ne (parent_ne hpar).symm).trans set_node_self

theorem link_parent (h : parent_path path = some p) :
    (b.link path).nodes p = (b.nodes p).map fun n => { n with child := path :: n.child } := by
  unfold link
  rw [h]
  exact if_pos rfl

theorem Tree.link (h : Tree b reg) (hnone : b.nodes path = none)
    (hpar : ∀ p, parent_path path = some p → (b.nodes p).isSome) : Tree (b.link path) reg := by
  have hsome := link_isSome hpar
  -- nothing is below a node that is not there
  have hbelow : ∀ c, parent_path c = some path → ¬ (b.nodes c).isSome := by
    intro c hc hn
    have hpath := h.up c path hn hc
    rw [hnone] at hpath
    cases hpath
  refine Tree.of_fits ?_ ?_ fun s t q hr => (hsome q).mpr (.inl (h.reg_node s t q hr))
  · intro q n hn
    by_cases hq : q = path
    · subst hq
      rw [link_self] at hn
      cases hn
      refine ⟨rfl, fun c => ?_, .nil, fun t s => ?_, fun _ => .nil⟩
      · refine iff_of_false not_mem_nil ?_
        rintro ⟨hc, hn⟩
        rcases (hsome c).mp hn with hn | rfl
        · exact hbelow c hc hn
        · exact parent_ne hc rfl
      · refine iff_of_false not_mem_nil fun hr => ?_
        have hpath := h.reg_node s t _ hr
        rw [hnone] at hpath
        cases hpath
    · by_cases hp : parent_path path = some q
      · rw [link_parent hp] at hn
        obtain ⟨m, hm, rfl⟩ := Option.map_eq_some_iff.mp hn
        have hfits := h.fits hm
        refine ⟨hfits.parent, fun c => ?_, ?_, hfits.list, hfits.list_nodup⟩
        · rw [mem_cons, hfits.child, hsome]
          constructor
          · rintro (rfl | ⟨hc, hn⟩)
            · exact ⟨hp, .inr rfl⟩
            · exact ⟨hc, .inl hn⟩
          · rintro ⟨hc, hn | rfl⟩
            · exact .inr ⟨hc, hn⟩
            · exact .inl rfl
        · refine nodup_cons.mpr ⟨fun hmem => ?_, hfits.child_nodup⟩
          have hpath := ((hfits.child path).mp hmem).2
          rw [hnone] at hpath
          cases hpath
      · rw [link_other hq hp] at hn
        refine (h.fits hn).congr fun c hc => ?_
        rw [hsome]
        refine ⟨fun hn => hn.resolve_right ?_, .inl⟩
        rintro rfl
        exact hp hc
  · intro c q hc hq
    refine (hsome q).mpr ?_
    rcases (hsome c).mp hc with hc | rfl
    · exact .inl (h.up c q hc hq)
    · exact .inl (hpar q hq)

/-- The object tree without a node, unlinked from its parent. -/
def Objects.unlink (b : Objects) (path : Path) : Objects :=
  match parent_path path with
  | none => b.set_node path none
  | some p =>
    (b.set_node path none).set_node p
      ((b.nodes p).map fun n => { n with child := n.child.erase path })

theorem unlink_self : (b.unlink path).nodes path = none := by
  unfold unlink
  cases hpar : parent_path path with
  | none => exact if_pos rfl
  | some p => exact (set_node_of_ne (parent_ne hpar).symm).trans (if_pos rfl)

theorem unlink_parent (h : parent_path path = some p) :
    (b.unlink path).nodes p = (b.nodes p).map fun n => { n with child := n.child.erase path } := by
  unfold unlink
  rw [h]
  exact if_pos rfl

theorem unlink_other (hq : q ≠ path) (hp : parent_path path ≠ some q) :
    (b.unlink path).nodes q = b.nodes q := by
  unfold unlink
  cases hpar : parent_path path with
  | none => exact set_node_of_ne hq
  | some p =>
    have hqp : q ≠ p := by
      rintro rfl
      exact hp hpar
    exact (set_node_of_ne hqp).trans (set_node_of_ne hq)

theorem unlink_isSome (q : Path) :
    ((b.unlink path).nodes q).isSome ↔ (b.nodes q).isSome ∧ q ≠ path := by
  by_cases hq : q = path
  · subst hq
    rw [unlink_self]
    simp
  · by_cases hp : parent_path path = some q
    · rw [unlink_parent hp]
      simp [hq]
    · rw [unlink_other hq hp]
      simp [hq]

theorem Frame.unlink (h : Frame b b') (path : Path) : Frame b (b'.unlink path) := by
  unfold Objects.unlink
  split
  · exact h.set_node none
  · exact (h.set_node none).set_node _

theorem Frame.link (h : Frame b b') (path : Path) : Frame b (b'.link path) := by
  unfold Objects.link
  split
  · exact h.set_node _
  · exact (h.set_node _).set_node _

theorem unused_iff : n.unused = true ↔ n.child = [] ∧ ∀ t, n.list t = [] := by
  unfold BusNode.unused
  simp only [Bool.and_eq_true, List.isEmpty_iff]
  constructor
  · rintro ⟨⟨⟨⟨hchild, hc⟩, hv⟩, he⟩, ho⟩
    refine ⟨hchild, fun t => ?_⟩
    cases t
    · exact hc
    · exact he
    · exact ho
    · exact hv
  · rintro ⟨hchild, hlist⟩
    exact ⟨⟨⟨⟨hchild, hlist _⟩, hlist _⟩, hlist _⟩, hlist _⟩

theorem Tree.unlink (h : Tree b reg) (hn : b.nodes path = some n) (hunused : n.unused = true) :
    Tree (b.unlink path) reg := by
  obtain ⟨hchild, hlist⟩ := unused_iff.mp hunused
  have hbelow : ∀ c, parent_path c = some path → ¬ (b.nodes c).isSome := by
    intro c hc hsome
    have hmem := (h.child path n c hn).mpr ⟨hc, hsome⟩
    rw [hchild] at hmem
    cases hmem
  refine Tree.of_fits ?_ ?_ fun s t q hr => (unlink_isSome q).mpr ⟨h.reg_node s t q hr, ?_⟩
  · intro q m hm
    have hq : q ≠ path := by
      rintro rfl
      rw [unlink_self] at hm
      cases hm
    by_cases hp : parent_path path = some q
    · rw [unlink_parent hp] at hm
      obtain ⟨m, hm', rfl⟩ := Option.map_eq_some_iff.mp hm
      have hfits := h.fits hm'
      refine ⟨hfits.parent, fun c => ?_, hfits.child_nodup.erase _, hfits.list, hfits.list_nodup⟩
      rw [hfits.child_nodup.mem_erase_iff, hfits.child, unlink_isSome]
      exact ⟨fun ⟨hne, hc, hsome⟩ => ⟨hc, hsome, hne⟩, fun ⟨hc, hsome, hne⟩ => ⟨hne, hc, hsome⟩⟩
    · rw [unlink_other hq hp] at hm
      refine (h.fits hm).congr fun c hc => ?_
      rw [unlink_isSome]
      refine ⟨And.left, fun hsome => ⟨hsome, ?_⟩⟩
      rintro rfl
      exact hp hc
  · intro c q hc hq
    have hsome := ((unlink_isSome c).mp hc).1
    refine (unlink_isSome q).mpr ⟨h.up c q hsome hq, ?_⟩
    rintro rfl
    exact hbelow c hq hsome
  · rintro rfl
    have hmem := (h.list q n t s hn).mpr hr
    rw [hlist t] at hmem
    cases hmem

/-! ## Section 3: Collecting nodes -/

variable {E : Objects → Prop}

theorem ensures_node {Q : BusNode → Objects → Prop} (hn : b.nodes q = some n) (h : Q n b) :
    Ensures (node q) b Q E := by
  refine ensures_get_bind ?_
  rw [hn]
  exact ensures_pure h

variable {Q : PUnit → Objects → Prop}

theorem ensures_update_node {f : BusNode → BusNode} (hn : b.nodes q = some n)
    (h : Q ⟨⟩ (b.set_node q (some (f n)))) : Ensures (update_node q f) b Q E := by
  refine ensures_bind (ensures_node (Q := fun m b' => m = n ∧ b' = b) hn ⟨rfl, rfl⟩) ?_
  rintro m b' ⟨rfl, rfl⟩
  exact ensures_modify h

/-- The node table holds what is registered, and what is above it. -/
def Exact (b : Objects) (reg : Registry) : Prop :=
  ∀ q, (b.nodes q).isSome ↔ paths.Covers reg.At q

/-- Of a node that nothing may keep any more, and of those above it, what
    nothing keeps is removed. -/
theorem ensures_gc_at (fuel : Nat) : ∀ (path : Path) (b : Objects),
    path.length ≤ fuel → 0 < path.length → Tree b reg →
    (∀ q, (b.nodes q).isSome ↔ paths.Covers reg.At q ∨ paths.Above q path) →
    Ensures (bus_node_gc_at fuel path) b
      (fun _ b' => Tree b' reg ∧ Exact b' reg ∧ Frame b b') E := by
  induction fuel with
  | zero =>
    omega
  | succ fuel ih =>
    intro path b hlen hpos ht hexact
    obtain ⟨n, hn⟩ := Option.isSome_iff_exists.mp ((hexact path).mpr (.inr .self))
    refine ensures_bind (ensures_node (Q := fun m b' => m = n ∧ b' = b) hn ⟨rfl, rfl⟩) ?_
    rintro m b' ⟨rfl, rfl⟩
    have hfits := ht.fits hn
    unfold when
    split
    · next hunused =>
      obtain ⟨hchild, hlist⟩ := unused_iff.mp hunused
      have hreg : ¬ reg.At path := by
        rintro ⟨s, t, hr⟩
        have hmem := (hfits.list t s).mpr hr
        rw [hlist t] at hmem
        cases hmem
      have hbelow : ∀ c, paths.parent c = some path → ¬ (b'.nodes c).isSome := by
        intro c hc hsome
        have hmem := (hfits.child c).mpr ⟨hc, hsome⟩
        rw [hchild] at hmem
        cases hmem
      have hrest := Forest.covers_removed hexact hreg hbelow
      have htree := ht.unlink hn hunused
      rw [hfits.parent]
      refine ensures_modify_bind ?_
      cases hpar : parent_path path with
      | none =>
        have hunlink : b'.unlink path = b'.set_node path none := by
          unfold unlink
          rw [hpar]
        rw [← hunlink]
        refine ensures_pure ⟨htree, fun q => ?_, (Frame.refl b').unlink path⟩
        rw [unlink_isSome, hrest]
        refine ⟨fun h => h.resolve_right ?_, .inl⟩
        rintro ⟨r, hr, _⟩
        exact absurd (hpar.symm.trans hr) (by simp)
      | some p =>
        obtain ⟨m, hm⟩ := Option.isSome_iff_exists.mp (ht.up path p (by rw [hn]; rfl) hpar)
        have hunlink : b'.unlink path =
            (b'.set_node path none).set_node p (some { m with child := m.child.erase path }) := by
          unfold unlink
          rw [hpar]
          dsimp only
          rw [hm]
          rfl
        refine ensures_bind (R := fun _ b'' => b'' = b'.unlink path) (ensures_update_node
          ((set_node_of_ne (parent_ne hpar)).trans hm) hunlink.symm) ?_
        rintro _ _ rfl
        have hlt := parent_path_lt hpar
        refine ensures_mono (ih p (b'.unlink path) (by omega) (parent_path_pos hpar) htree fun q => ?_)
          ?_ fun _ h => h
        · rw [unlink_isSome, hrest]
          refine or_congr_right ⟨?_, fun h => ⟨p, hpar, h⟩⟩
          rintro ⟨r, hr, habove⟩
          obtain rfl := Option.some.inj (hr.symm.trans hpar)
          exact habove
        · rintro _ b'' ⟨ht', hexact', hframe⟩
          exact ⟨ht', hexact', ((Frame.refl b').unlink path).trans hframe⟩
    · next hkept =>
      refine ensures_pure ⟨ht, Forest.covers_kept hexact ?_, Frame.refl b'⟩
      rw [unused_iff, not_and_or] at hkept
      rcases hkept with hchild | hlist
      · obtain ⟨c, hc⟩ := exists_mem_of_ne_nil _ hchild
        exact .inr ⟨c, (hfits.child c).mp hc⟩
      · obtain ⟨t, ht'⟩ := not_forall.mp hlist
        obtain ⟨s, hs⟩ := exists_mem_of_ne_nil _ ht'
        exact .inl ⟨s, t, (hfits.list t s).mp hs⟩

theorem ensures_gc (hpos : 0 < path.length) (ht : Tree b reg)
    (hexact : ∀ q, (b.nodes q).isSome ↔ paths.Covers reg.At q ∨ paths.Above q path) :
    Ensures (bus_node_gc path) b (fun _ b' => Tree b' reg ∧ Exact b' reg ∧ Frame b b') E :=
  ensures_gc_at path.length path b (Nat.le_refl _) hpos ht hexact

/-! ## Section 4: Making nodes -/

theorem ensures_alloc (h : 0 < b.memory → Q ⟨⟩ { b with memory := b.memory - 1 })
    (hE : b.memory = 0 → E b) : Ensures alloc b Q E := by
  refine ensures_get_bind ?_
  split
  · next hzero => exact ensures_fail (hE hzero)
  · next hpos => exact ensures_modify (h (Nat.pos_of_ne_zero hpos))

/-- How many nodes have to be made for a path: itself and those above it that
    are not in the table. -/
def missing_at : Nat → (Path → Option BusNode) → Path → Nat
  | 0, _, _ => 0
  | fuel + 1, nodes, path =>
    if (nodes path).isSome then 0
    else
      match parent_path path with
      | none => 1
      | some parent => 1 + missing_at fuel nodes parent

/-- The allocation of the hashmap, if it has not been allocated. -/
def Objects.first (b : Objects) : Nat := if b.nodes_allocated then 0 else 1

/-- Where `d` nodes are missing, memory does not run out from where the first of
    them has been put into the table to where the last of them has. -/
def AllOrNone (b : Objects) (d : Nat) : Prop :=
  d = 0 ∨ b.memory < b.first + d + 2 ∨ b.first + 3 * d ≤ b.memory

/-- What making `d` nodes leaves. -/
structure Made (b : Objects) (reg : Registry) (path : Path) (d : Nat) (b' : Objects) : Prop where
  tree : Tree b' reg
  nodes : ∀ q, (b'.nodes q).isSome ↔ (b.nodes q).isSome ∨ paths.Above q path
  frame : Frame b b'
  same : d = 0 → b' = b
  memory : 0 < d → b'.memory + b.first + 3 * d = b.memory

/-- The nodes, the slots and the tables of members are the same. -/
def Same (b b' : Objects) : Prop := b'.nodes = b.nodes ∧ Frame b b'

/-- A path that is in the table, with all above it. -/
theorem Made.of_mem (ht : Tree b reg) (hn : (b.nodes path).isSome) : Made b reg path 0 b := by
  have habove : ∀ q, paths.Above q path → (b.nodes q).isSome := by
    intro q habove
    induction habove with
    | self => exact hn
    | up hpar _ ih => exact ih (ht.up _ _ hn hpar)
  exact ⟨ht, fun q => ⟨.inl, fun h => h.elim id (habove q)⟩, Frame.refl b, fun _ => rfl,
    fun h => absurd h (Nat.lt_irrefl 0)⟩

/-- From `b₀`, everything above the node has been made. -/
structure Prepared (b₀ : Objects) (reg : Registry) (path : Path) (b : Objects) : Prop where
  tree : Tree b reg
  up : ∀ p, parent_path path = some p → (b.nodes p).isSome
  nodes : ∀ q, (b.nodes q).isSome ↔
    (b₀.nodes q).isSome ∨ ∃ p, parent_path path = some p ∧ paths.Above q p
  frame : Frame b₀ b
  same : b.memory < 2 → b.nodes = b₀.nodes

/-- The node itself is made and linked, or everything is as it was. -/
theorem ensures_make_node {b₀ : Objects} (hnone : b₀.nodes path = none)
    (h : Prepared b₀ reg path b) :
    Ensures (do
      alloc
      alloc
      Call.modify fun b => b.set_node path (some ⟨parent_path path, [], fun _ => []⟩)
      if_some (parent_path path) fun parent =>
        update_node parent fun n => { n with child := path :: n.child }) b
      (fun _ b' => (Tree b' reg ∧ (∀ q, (b'.nodes q).isSome ↔ (b₀.nodes q).isSome ∨ paths.Above q path) ∧
        Frame b₀ b') ∧ b'.memory + 2 = b.memory) (Same b₀) := by
  have hframe : ∀ k, Frame b₀ { b with memory := k } :=
    fun k => ⟨h.frame.slots, h.frame.next_slot, h.frame.members⟩
  refine ensures_bind (R := fun _ b' => 0 < b.memory ∧ b' = { b with memory := b.memory - 1 })
    (ensures_alloc (fun hpos => ⟨hpos, rfl⟩) fun hzero => ⟨h.same (by omega), h.frame⟩) ?_
  rintro _ _ ⟨hpos, rfl⟩
  refine ensures_bind (R := fun _ b' => 2 ≤ b.memory ∧ b' = { b with memory := b.memory - 2 })
    (ensures_alloc (fun hpos' => ⟨?_, rfl⟩) fun hzero => ⟨h.same ?_, hframe _⟩) ?_
  · have hmem : 0 < b.memory - 1 := hpos'
    omega
  · have hmem : b.memory - 1 = 0 := hzero
    omega
  rintro _ _ ⟨htwo, rfl⟩
  refine ensures_modify_bind ?_
  obtain ⟨b1, hb1⟩ : ∃ b1, b1 = { b with memory := b.memory - 2 } := ⟨_, rfl⟩
  have hnodes : b1.nodes = b.nodes := by rw [hb1]
  have hnew : b1.nodes path = none := by
    rw [hnodes, Option.eq_none_iff_forall_ne_some]
    intro n hn
    rcases (h.nodes path).mp (by rw [hn]; rfl) with hold | ⟨p, hp, habove⟩
    · rw [hnone] at hold
      cases hold
    · exact Forest.not_above_parent (F := paths) hp habove
  have hup : ∀ p, parent_path path = some p → (b1.nodes p).isSome := by
    rw [hnodes]
    exact h.up
  -- what the node table is then
  have hmade : Tree (b1.link path) reg ∧
      (∀ q, ((b1.link path).nodes q).isSome ↔ (b₀.nodes q).isSome ∨ paths.Above q path) ∧
      Frame b₀ (b1.link path) := by
    refine ⟨(h.tree.congr hnodes).link hnew hup, fun q => ?_, ?_⟩
    · rw [link_isSome hup, hnodes, h.nodes, or_assoc]
      refine or_congr_right ?_
      cases hp : parent_path path with
      | none =>
        rw [Forest.above_iff_of_root (F := paths) hp]
        simp
      | some p =>
        rw [Forest.above_iff_of_parent (F := paths) hp, or_comm]
        simp
    · refine Frame.link ?_ path
      rw [hb1]
      exact hframe _
  have hmemory : (b1.link path).memory + 2 = b.memory := by
    have hlink : (b1.link path).memory = b1.memory := by
      unfold link
      split
      · rfl
      · rfl
    rw [hlink, hb1]
    show b.memory - 2 + 2 = b.memory
    omega
  rw [← hb1]
  cases hp : parent_path path with
  | none =>
    have hlink : b1.link path = b1.set_node path (some ⟨none, [], fun _ => []⟩) := by
      unfold link
      rw [hp]
    rw [← hlink]
    exact ensures_pure ⟨hmade, hmemory⟩
  | some p =>
    obtain ⟨m, hm⟩ := Option.isSome_iff_exists.mp (hup p hp)
    have hlink : b1.link path = (b1.set_node path (some ⟨some p, [], fun _ => []⟩)).set_node p
        (some { m with child := path :: m.child }) := by
      unfold link
      rw [hp]
      dsimp only
      rw [hm]
      rfl
    refine ensures_update_node ((set_node_of_ne (parent_ne hp)).trans hm) ?_
    rw [← hlink]
    exact ⟨hmade, hmemory⟩

/-- The two allocations before the parent: of the hashmap, and of the path. -/
theorem ensures_before {f : Call Objects PUnit}
    (hf : b.first + 1 ≤ b.memory → Ensures f { b with nodes_allocated := true, memory := b.memory - b.first - 1 } Q (Same b)) :
    Ensures (do
      Call.when (!b.nodes_allocated) do
        alloc
        Call.modify fun b => { b with nodes_allocated := true }
      alloc
      f) b Q (Same b) := by
  have hsame : ∀ k a, Same b { b with nodes_allocated := a, memory := k } := fun _ _ => ⟨rfl, ⟨rfl, rfl, rfl⟩⟩
  refine ensures_bind (R := fun _ b' => b.first ≤ b.memory ∧
    b' = { b with nodes_allocated := true, memory := b.memory - b.first }) ?_ ?_
  · cases hb : b.nodes_allocated with
    | true =>
      have hfirst : b.first = 0 := by
        unfold first
        rw [hb]
        rfl
      refine ensures_pure ⟨by omega, ?_⟩
      rw [hfirst, Nat.sub_zero, ← hb]
    | false =>
      have hfirst : b.first = 1 := by
        unfold first
        rw [hb]
        rfl
      rw [hfirst]
      refine ensures_bind (R := fun _ b' => 0 < b.memory ∧ b' = { b with memory := b.memory - 1 })
        (ensures_alloc (fun hpos => ⟨hpos, rfl⟩) fun _ => hsame b.memory b.nodes_allocated) ?_
      rintro _ _ ⟨hpos, rfl⟩
      exact ensures_modify ⟨hpos, rfl⟩
  · rintro _ _ ⟨hle, rfl⟩
    refine ensures_bind (R := fun _ b' => b.first + 1 ≤ b.memory ∧
      b' = { b with nodes_allocated := true, memory := b.memory - b.first - 1 })
      (ensures_alloc (fun hpos => ⟨?_, rfl⟩) fun _ => hsame _ _) ?_
    · have hmem : 0 < b.memory - b.first := hpos
      omega
    · rintro _ _ ⟨hone, rfl⟩
      exact hf hone

/-- A node is made, with all above it that are missing, or no node is. -/
theorem ensures_allocate_at (fuel : Nat) : ∀ (path : Path) (b : Objects), path.length ≤ fuel →
    Slash path → Tree b reg → AllOrNone b (missing_at fuel b.nodes path) →
    Ensures (bus_node_allocate_at fuel path) b
      (fun _ => Made b reg path (missing_at fuel b.nodes path)) (Same b) := by
  induction fuel with
  | zero =>
    intro path b hlen hslash
    have hpos : 0 < path.length := length_pos_of_mem (mem_of_mem_head? hslash)
    omega
  | succ fuel ih =>
    intro path b hlen hslash ht hclean
    refine ensures_get_bind ?_
    split
    · next hn =>
      have hzero : missing_at (fuel + 1) b.nodes path = 0 := if_pos hn
      rw [hzero]
      exact ensures_pure (Made.of_mem ht hn)
    next hn =>
    have hnone : b.nodes path = none := by simpa using hn
    refine ensures_before fun hone => ?_
    obtain ⟨b2, hb2⟩ : ∃ b2, b2 = { b with
      nodes_allocated := true, memory := b.memory - b.first - 1 } := ⟨_, rfl⟩
    have hnodes : b2.nodes = b.nodes := by rw [hb2]
    have hfirst : b2.first = 0 := by rw [hb2]; rfl
    have hmemory : b2.memory + b.first + 1 = b.memory := by
      rw [hb2]
      show b.memory - b.first - 1 + b.first + 1 = b.memory
      omega
    have hframe : Frame b b2 := by rw [hb2]; exact ⟨rfl, rfl, rfl⟩
    have ht2 := ht.congr hnodes
    rw [← hb2]
    refine ensures_assert_bind hslash.has_parent ?_
    obtain ⟨d, hd⟩ : ∃ d, d = missing_at (fuel + 1) b.nodes path := ⟨_, rfl⟩
    -- what is left to do, once everything above is there
    refine ensures_bind (R := fun _ b3 => Prepared b reg path b3 ∧ 0 < d ∧
      b3.memory + b.first + 1 + 3 * (d - 1) = b.memory) ?_ ?_
    · cases hp : parent_path path with
      | none =>
        have hone : d = 1 := by
          rw [hd]
          unfold missing_at
          rw [if_neg hn, hp]
        refine ensures_pure ⟨⟨ht2, fun p h => absurd (hp.symm.trans h) (by simp), fun q => ?_, hframe,
          fun _ => hnodes⟩, by omega, by omega⟩
        rw [hnodes, hp]
        simp
      | some p =>
        have hlt := parent_path_lt hp
        have hih := ih p b2 (by omega) (hslash.parent hp) ht2
        rw [hnodes] at hih
        obtain ⟨d2, hd2⟩ : ∃ d2, d2 = missing_at fuel b.nodes p := ⟨_, rfl⟩
        have hmissing : d = 1 + d2 := by
          rw [hd, hd2]
          conv_lhs => unfold missing_at
          rw [if_neg hn, hp]
        rw [← hd2] at hih
        unfold AllOrNone at hclean hih
        refine ensures_mono (hih (by omega)) ?_ fun b' h => ⟨h.1.trans hnodes, hframe.trans h.2⟩
        rintro _ b3 hmade
        have hmemory3 : b3.memory + 3 * d2 = b2.memory := by
          by_cases hzero : d2 = 0
          · rw [hmade.same hzero]
            omega
          · have hm := hmade.memory (by omega)
            omega
        refine ⟨⟨hmade.tree, fun p' h => ?_, fun q => ?_, hframe.trans hmade.frame, fun hlow => ?_⟩,
          by omega, by omega⟩
        · obtain rfl := Option.some.inj (hp.symm.trans h)
          exact (hmade.nodes p).mpr (.inr .self)
        · rw [hmade.nodes, hnodes, hp]
          simp
        · have hzero : d2 = 0 := by omega
          rw [hmade.same hzero, hnodes]
    · rintro _ b3 ⟨hprep, hpos, hmemory3⟩
      refine ensures_mono (ensures_make_node hnone hprep) ?_ fun _ h => h
      rintro _ b' ⟨⟨ht', hnodes', hframe'⟩, hmem'⟩
      exact ⟨ht', hnodes', hframe', fun hzero => by omega, fun _ => by omega⟩

/-- How many nodes are missing for a path. -/
def Objects.missing (b : Objects) (path : Path) : Nat := missing_at path.length b.nodes path

theorem ensures_allocate (hslash : Slash path) (ht : Tree b reg)
    (hclean : AllOrNone b (b.missing path)) :
    Ensures (bus_node_allocate path) b (fun _ => Made b reg path (b.missing path)) (Same b) :=
  ensures_allocate_at path.length path b (Nat.le_refl _) hslash ht hclean

variable {l : List SlotId} {t : BusSlotType}

/-- The same nodes are in the table when a list of one of them changes. -/
theorem set_list_isSome (hn : b.nodes path = some n) (q : Path) :
    ((b.set_node path (some (n.set_list t l))).nodes q).isSome ↔ (b.nodes q).isSome := by
  by_cases hq : q = path
  · subst hq
    rw [set_node_self, hn]
    exact iff_of_true rfl rfl
  · rw [set_node_of_ne hq]

/-- A list of a node changes with what is registered at it. -/
theorem Tree.set_list {reg' : Registry} (h : Tree b reg) (hn : b.nodes path = some n)
    (hl : ∀ s, s ∈ l ↔ reg' s t path) (hnodup : l.Nodup)
    (hother : ∀ s t' q, ¬ (t' = t ∧ q = path) → (reg' s t' q ↔ reg s t' q)) :
    Tree (b.set_node path (some (n.set_list t l))) reg' := by
  have hsome := fun q => set_list_isSome (t := t) (l := l) hn q
  have hfits := h.fits hn
  refine Tree.of_fits ?_ (fun c q hc hq => (hsome q).mpr (h.up c q ((hsome c).mp hc) hq)) ?_
  · intro q m hm
    by_cases hq : q = path
    · subst hq
      rw [set_node_self] at hm
      cases hm
      refine ⟨hfits.parent, fun c => ?_, hfits.child_nodup, fun t' s => ?_, fun t' => ?_⟩
      · rw [hsome]
        exact hfits.child c
      · unfold BusNode.set_list
        dsimp only
        split
        · next ht =>
          rw [ht]
          exact hl s
        · next ht => exact (hfits.list t' s).trans (hother s t' q fun h => ht h.1).symm
      · unfold BusNode.set_list
        dsimp only
        split
        · exact hnodup
        · exact hfits.list_nodup t'
    · rw [set_node_of_ne hq] at hm
      have hfits' : Fits (b.set_node path (some (n.set_list t l))).nodes reg q m :=
        (h.fits hm).congr fun c _ => hsome c
      exact ⟨hfits'.parent, hfits'.child, hfits'.child_nodup,
        fun t' s => (hfits'.list t' s).trans (hother s t' q fun h => hq h.2).symm, hfits'.list_nodup⟩
  · intro s t' q hr
    refine (hsome q).mpr ?_
    by_cases hq : q = path
    · rw [hq, hn]
      rfl
    · exact h.reg_node s t' q ((hother s t' q fun h => hq h.2).mp hr)

end tree

end SdCompat.Objects
