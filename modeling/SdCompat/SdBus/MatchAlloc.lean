import SdCompat.SdBus.MatchRun

/-! # The match tree when memory runs out (bus-match.c)

    Adding a rule allocates nodes one component after the other. Where there is
    no memory for a node, what belongs to this node is freed, but not the nodes
    made before it. Unless that happens the tree has no node without a child
    (`alloc_tree_full`).
-/

universe u

open Transition
open scoped List

namespace SdCompat.Match

open Nodes List Values

variable {ι : Type u}

/-! ## Section 1: Adding with a number of allocations -/

/-- The value nodes below the first compare node of this type. -/
def Nodes.find (t : BusMatchNodeType) : Nodes ι → Option (Values ι)
  | .nil => none
  | .leaf _ next => next.find t
  | .compare t' children next => if t' = t then some children else next.find t

/-- What is below the value node of this value. -/
def Values.find (t : BusMatchNodeType) (v : BusMatchValue) : Values ι → Option (Nodes ι)
  | .nil => none
  | .value w child next => if value_node_same t w v then some child else next.find t v

/-- Other value nodes below this compare node. -/
def Nodes.set (t : BusMatchNodeType) (children : Values ι) (nodes : Nodes ι) : Nodes ι :=
  (nodes.update t fun _ => children).getD nodes

/-- Other nodes below this value node. -/
def Values.set (t : BusMatchNodeType) (v : BusMatchValue) (child : Nodes ι) (values : Values ι) :
    Values ι :=
  (values.update t v fun _ => child).getD values

/-- `bus_match_node_maybe_free` of a compare node: it goes if it has no value
    node. -/
def Nodes.maybe_free (t : BusMatchNodeType) : Nodes ι → Nodes ι
  | .nil => .nil
  | .leaf cb next => .leaf cb (next.maybe_free t)
  | .compare t' children next =>
    if t' = t then
      match children with
      | .nil => next
      | children => .compare t' children next
    else .compare t' children (next.maybe_free t)

/-- For a compare node, and its hash table. -/
def compare_allocs (t : BusMatchNodeType) : Nat := 1 + if BUS_MATCH_CAN_HASH t then 1 else 0

/-- For a value node, its string, and its place in the hash table. -/
def value_allocs (t : BusMatchNodeType) : Nat :=
  1 + (if t = .message_type then 0 else 1) + if BUS_MATCH_CAN_HASH t then 1 else 0

/-- `bus_match_add`, where this number of allocations succeeds: whether it
    succeeds itself, and what it leaves. -/
def bus_match_add_alloc (cb : ι) : Nat → List BusMatchComponent → Nodes ι → Bool × Nodes ι
  | k, [], nodes => if k = 0 then (false, nodes) else (true, .leaf cb nodes)
  | k, c :: components, nodes =>
    match nodes.find c.type with
    | some children =>
      match children.find c.type c.value with
      | some child =>
        let r := bus_match_add_alloc cb k components child
        (r.1, nodes.set c.type (children.set c.type c.value r.2))
      | none =>
        if k < value_allocs c.type then (false, nodes.maybe_free c.type)
        else
          let r := bus_match_add_alloc cb (k - value_allocs c.type) components .nil
          (r.1, nodes.set c.type (.value c.value r.2 children))
    | none =>
      -- the new compare node is freed again
      if k < compare_allocs c.type + value_allocs c.type then (false, nodes)
      else
        let r := bus_match_add_alloc cb (k - (compare_allocs c.type + value_allocs c.type))
          components .nil
        (r.1, .compare c.type (.value c.value r.2 .nil) nodes)

/-- What the nodes need that are not there yet, the leaf being the last. -/
def allocs : List BusMatchComponent → Nodes ι → List Nat
  | [], _ => [1]
  | c :: components, nodes =>
    match nodes.find c.type with
    | some children =>
      match children.find c.type c.value with
      | some child => allocs components child
      | none => value_allocs c.type :: allocs components (.nil : Nodes ι)
    | none => (compare_allocs c.type + value_allocs c.type) :: allocs components (.nil : Nodes ι)

/-- For the first new node, or the first two. -/
def first_allocs (components : List BusMatchComponent) (nodes : Nodes ι) : Nat :=
  (allocs components nodes).headD 0

/-! ## Section 2: No node without a child -/

mutual

/-- Every value node has a child, and every compare node a value node. -/
def Nodes.full : Nodes ι → Prop
  | .nil => True
  | .leaf _ next => next.full
  | .compare _ children next => children ≠ .nil ∧ children.full ∧ next.full

/-- The same for value nodes. -/
def Values.full : Values ι → Prop
  | .nil => True
  | .value _ child next => child ≠ .nil ∧ child.full ∧ next.full

end

section find
variable {t : BusMatchNodeType} {v : BusMatchValue}

variable {children : Values ι}

theorem Nodes.find_full : ∀ {nodes : Nodes ι},
    nodes.find t = some children → nodes.full → children ≠ .nil ∧ children.full
  | .nil, h, _ => by cases h
  | .leaf _ next, h, hf => by
    have hnext : next.find t = some children := h
    exact find_full hnext hf
  | .compare t' children' next, h, hf => by
    unfold find at h
    split at h
    · cases h
      exact ⟨hf.1, hf.2.1⟩
    · exact find_full h hf.2.2

variable {child : Nodes ι}

theorem Values.find_full : ∀ {values : Values ι},
    values.find t v = some child → values.full → child ≠ .nil ∧ child.full
  | .nil, h, _ => by cases h
  | .value w child' next, h, hf => by
    unfold find at h
    split at h
    · cases h
      exact ⟨hf.1, hf.2.1⟩
    · exact find_full h hf.2.2

/-- What is found is what is changed. -/
theorem Nodes.update_find (f : Values ι → Values ι) : ∀ {nodes : Nodes ι},
    nodes.find t = some children → nodes.update t f = some (nodes.set t (f children))
  | .nil, h => by cases h
  | .leaf cb next, h => by
    have hfound : next.find t = some children := h
    have hnext := update_find f hfound
    have hconst := update_find (fun _ => f children) hfound
    unfold set
    unfold update
    rw [hnext, hconst]
    rfl
  | .compare t' children' next, h => by
    unfold find at h
    unfold set update
    split at h
    · next ht =>
      cases h
      rw [if_pos ht, if_pos ht]
      rfl
    · next ht =>
      rw [if_neg ht, if_neg ht, update_find f h, update_find (fun _ => f children) h]
      rfl

theorem Nodes.update_find_none (f : Values ι → Values ι) : ∀ {nodes : Nodes ι},
    nodes.find t = none → nodes.update t f = none
  | .nil, _ => rfl
  | .leaf cb next, h => by
    have hnext : next.find t = none := h
    unfold update
    rw [update_find_none f hnext]
    rfl
  | .compare t' children next, h => by
    unfold find at h
    unfold update
    split at h
    · cases h
    · next ht =>
      rw [if_neg ht, update_find_none f h]
      rfl

theorem Values.update_find (f : Nodes ι → Nodes ι) : ∀ {values : Values ι},
    values.find t v = some child → values.update t v f = some (values.set t v (f child))
  | .nil, h => by cases h
  | .value w child' next, h => by
    unfold find at h
    unfold set update
    split at h
    · next hs =>
      cases h
      rw [if_pos hs, if_pos hs]
      rfl
    · next hs =>
      rw [if_neg hs, if_neg hs, update_find f h, update_find (fun _ => f child) h]
      rfl

theorem Values.update_find_none (f : Nodes ι → Nodes ι) : ∀ {values : Values ι},
    values.find t v = none → values.update t v f = none
  | .nil, _ => rfl
  | .value w child next, h => by
    unfold find at h
    unfold update
    split at h
    · cases h
    · next hs =>
      rw [if_neg hs, update_find_none f h]
      rfl

/-- With the changed value nodes the tree is as full as these are. -/
theorem Nodes.set_full {children' : Values ι} : ∀ {nodes : Nodes ι},
    nodes.find t = some children → nodes.full →
      ((nodes.set t children').full ↔ children' ≠ .nil ∧ children'.full)
  | .nil, h, _ => by cases h
  | .leaf cb next, h, hf => by
    have hfound : next.find t = some children := h
    have hupdate := update_find (fun _ => children') hfound
    unfold set update
    rw [hupdate]
    exact set_full hfound hf
  | .compare t' children'' next, h, hf => by
    unfold find at h
    unfold set update
    split at h
    · next ht =>
      rw [if_pos ht]
      show children' ≠ .nil ∧ children'.full ∧ next.full ↔ _
      have hnext := hf.2.2
      tauto
    · next ht =>
      have hnext : (next.set t children').full ↔ _ := set_full h hf.2.2
      rw [if_neg ht, update_find (fun _ => children') h]
      show children'' ≠ .nil ∧ children''.full ∧ (next.set t children').full ↔ _
      have h1 := hf.1
      have h2 := hf.2.1
      tauto

theorem Values.set_full {child' : Nodes ι} : ∀ {values : Values ι},
    values.find t v = some child → values.full →
      ((values.set t v child').full ↔ child' ≠ .nil ∧ child'.full)
  | .nil, h, _ => by cases h
  | .value w child'' next, h, hf => by
    unfold find at h
    unfold set update
    split at h
    · next hs =>
      rw [if_pos hs]
      show child' ≠ .nil ∧ child'.full ∧ next.full ↔ _
      have hnext := hf.2.2
      tauto
    · next hs =>
      have hnext : (next.set t v child').full ↔ _ := set_full h hf.2.2
      rw [if_neg hs, update_find (fun _ => child') h]
      show child'' ≠ .nil ∧ child''.full ∧ (next.set t v child').full ↔ _
      have h1 := hf.1
      have h2 := hf.2.1
      tauto

/-- The value nodes are not gone after a change. -/
theorem Values.set_ne_nil {values : Values ι} (h : values ≠ .nil) :
    values.set t v child ≠ .nil := by
  unfold set
  cases values with
  | nil => exact absurd rfl h
  | value w child' next =>
    unfold update
    split
    · simp
    · cases next.update t v fun _ => child <;> simp

/-- Setting what is there changes nothing. -/
theorem Nodes.set_self : ∀ {nodes : Nodes ι},
    nodes.find t = some children → nodes.set t children = nodes
  | .nil, h => by cases h
  | .leaf cb next, h => by
    have hfound : next.find t = some children := h
    have hupdate := update_find (fun _ => children) hfound
    unfold set update
    rw [hupdate, set_self hfound]
    rfl
  | .compare t' children' next, h => by
    unfold find at h
    unfold set update
    split at h
    · next ht =>
      cases h
      rw [if_pos ht, ht]
      rfl
    · next ht =>
      rw [if_neg ht, update_find (fun _ => children) h, set_self h]
      rfl

theorem Values.set_self : ∀ {values : Values ι},
    values.find t v = some child → values.set t v child = values
  | .nil, h => by cases h
  | .value w child' next, h => by
    unfold find at h
    unfold set update
    split at h
    · next hs =>
      cases h
      rw [if_pos hs]
      rfl
    · next hs =>
      rw [if_neg hs, update_find (fun _ => child) h, set_self h]
      rfl

/-- A compare node with a value node is not freed. -/
theorem Nodes.maybe_free_full : ∀ {nodes : Nodes ι}, nodes.full → nodes.maybe_free t = nodes
  | .nil, _ => rfl
  | .leaf cb next, hf => by
    have hnext : next.full := hf
    unfold maybe_free
    rw [maybe_free_full hnext]
  | .compare t' children next, hf => by
    unfold maybe_free
    split
    · cases children with
      | nil => exact absurd rfl hf.1
      | value v child rest => rfl
    · rw [maybe_free_full hf.2.2]

end find

/-! ## Section 3: What a failure leaves -/

variable {nodes : Nodes ι}

/-- A change below the first compare node of this type. -/
theorem bus_match_add_find (c : BusMatchComponent) (below : Nodes ι → Nodes ι) {children : Values ι}
    (h : nodes.find c.type = some children) :
    bus_match_add_compare_value c below nodes =
      nodes.set c.type (match children.find c.type c.value with
        | some child => children.set c.type c.value (below child)
        | none => .value c.value (below .nil) children) := by
  unfold bus_match_add_compare_value
  rw [update_find _ h]
  cases hv : children.find c.type c.value with
  | some child =>
    rw [update_find below hv]
    rfl
  | none =>
    rw [update_find_none below hv]
    rfl

theorem bus_match_add_find_none (c : BusMatchComponent) (below : Nodes ι → Nodes ι)
    (h : nodes.find c.type = none) : bus_match_add_compare_value c below nodes =
      .compare c.type (.value c.value (below .nil) .nil) nodes := by
  unfold bus_match_add_compare_value
  rw [update_find_none _ h]

/-- **A failure** for the first new node leaves the tree as it was; a later one
    leaves a value node without a child. -/
theorem bus_match_add_alloc_spec (cb : ι) (components : List BusMatchComponent) (hf : nodes.full)
    (k : Nat) : ((allocs components nodes).sum ≤ k →
      bus_match_add_alloc cb k components nodes = (true, bus_match_add cb components nodes)) ∧
    (k < first_allocs components nodes →
      bus_match_add_alloc cb k components nodes = (false, nodes)) ∧
    (first_allocs components nodes ≤ k → k < (allocs components nodes).sum →
      (bus_match_add_alloc cb k components nodes).1 = false ∧
        ¬ (bus_match_add_alloc cb k components nodes).2.full) := by
  induction components generalizing nodes k with
  | nil =>
    unfold bus_match_add_alloc first_allocs allocs bus_match_add
    refine ⟨?_, ?_, ?_⟩
    · intro h
      rw [if_neg (by simp at h; omega)]
    · intro h
      rw [if_pos (by simpa using h)]
    · intro h1 h2
      simp at h1 h2
      omega
  | cons c components ih =>
    have hnil : (nil : Nodes ι).full := trivial
    -- below a new value node there is nothing, or nothing that is full
    have hnew : ∀ k', k' < (allocs components (.nil : Nodes ι)).sum →
        (bus_match_add_alloc cb k' components .nil).1 = false ∧
          ¬ ((bus_match_add_alloc cb k' components .nil).2 ≠ .nil ∧
            (bus_match_add_alloc cb k' components .nil).2.full) := by
      intro k' hk'
      obtain ⟨_, hfirst, hlater⟩ := ih hnil k'
      by_cases hk : k' < first_allocs components (.nil : Nodes ι)
      · rw [hfirst hk]
        exact ⟨rfl, fun h => h.1 rfl⟩
      · obtain ⟨hfalse, hnot⟩ := hlater (by omega) hk'
        exact ⟨hfalse, fun h => hnot h.2⟩
    unfold bus_match_add_alloc bus_match_add first_allocs allocs
    cases hfind : nodes.find c.type with
    | none =>
      rw [bus_match_add_find_none c _ hfind]
      simp only [sum_cons, headD_cons]
      refine ⟨?_, ?_, ?_⟩
      · intro h
        rw [if_neg (by omega), (ih hnil _).1 (by omega)]
      · intro h
        rw [if_pos h]
      · intro h1 h2
        obtain ⟨hfalse, hnot⟩ := hnew (k - (compare_allocs c.type + value_allocs c.type)) (by omega)
        rw [if_neg (by omega)]
        exact ⟨hfalse, fun h => hnot ⟨h.2.1.1, h.2.1.2.1⟩⟩
    | some children =>
      rw [bus_match_add_find c _ hfind]
      obtain ⟨hne, hchildren⟩ := find_full hfind hf
      cases hv : children.find c.type c.value with
      | none =>
        simp only [hv, sum_cons, headD_cons]
        refine ⟨?_, ?_, ?_⟩
        · intro h
          rw [if_neg (by omega), (ih hnil _).1 (by omega)]
        · intro h
          rw [if_pos h, maybe_free_full hf]
        · intro h1 h2
          obtain ⟨hfalse, hnot⟩ := hnew (k - value_allocs c.type) (by omega)
          rw [if_neg (by omega)]
          refine ⟨hfalse, ?_⟩
          intro hfull
          have hvalue := ((set_full hfind hf).mp hfull).2
          exact hnot ⟨hvalue.1, hvalue.2.1⟩
      | some child =>
        obtain ⟨_, hchild⟩ := find_full hv hchildren
        obtain ⟨htotal, hfirst, hlater⟩ := ih hchild k
        simp only [hv]
        refine ⟨?_, ?_, ?_⟩
        · intro h
          simp only [htotal h]
        · intro h
          simp only [hfirst h, set_self hv, set_self hfind]
        · intro h1 h2
          obtain ⟨hfalse, hnot⟩ := hlater h1 h2
          refine ⟨hfalse, ?_⟩
          intro hfull
          have hvalue := ((set_full hfind hf).mp hfull).2
          exact hnot ((set_full hv hchildren).mp hvalue).2

/-- Adding a rule keeps the tree full, and something stands there. -/
theorem bus_match_add_full (cb : ι) (components : List BusMatchComponent) (hf : nodes.full) :
    bus_match_add cb components nodes ≠ .nil ∧ (bus_match_add cb components nodes).full := by
  induction components generalizing nodes with
  | nil => exact ⟨by simp [bus_match_add], hf⟩
  | cons c components ih =>
    have hbelow : bus_match_add cb components (.nil : Nodes ι) ≠ .nil ∧
        (bus_match_add cb components (.nil : Nodes ι)).full := ih trivial
    unfold bus_match_add
    cases hfind : nodes.find c.type with
    | none =>
      rw [bus_match_add_find_none c _ hfind]
      exact ⟨by simp, by simp, ⟨hbelow.1, hbelow.2, trivial⟩, hf⟩
    | some children =>
      rw [bus_match_add_find c _ hfind]
      obtain ⟨hne, hchildren⟩ := find_full hfind hf
      have hset : ∀ children' : Values ι, children' ≠ .nil → children'.full →
          nodes.set c.type children' ≠ .nil ∧ (nodes.set c.type children').full := by
        intro children' hne' hfull'
        refine ⟨?_, (set_full hfind hf).mpr ⟨hne', hfull'⟩⟩
        exact update_ne_nil (update_find (fun _ => children') hfind)
      cases hv : children.find c.type c.value with
      | none => exact hset _ (by simp) ⟨hbelow.1, hbelow.2, hchildren⟩
      | some child =>
        have hchild := ih (find_full hv hchildren).2
        exact hset _ (set_ne_nil hne) ((set_full hv hchildren).mpr hchild)

section remove
variable [DecidableEq ι] {cb : ι}

mutual

/-- Removing keeps the tree full. -/
theorem bus_match_remove_full : ∀ {nodes nodes' : Nodes ι},
    bus_match_remove cb nodes = some nodes' → nodes.full → nodes'.full
  | .nil, _, h, _ => by
    cases h
  | .leaf cb' next, nodes', h, hf => by
    unfold bus_match_remove at h
    split at h
    · cases h
      exact hf
    · obtain ⟨next', hn, rfl⟩ := Option.map_eq_some_iff.mp h
      have hf' : next'.full := bus_match_remove_full hn hf
      exact hf'
  | .compare t children next, nodes', h, hf => by
    unfold bus_match_remove at h
    split at h
    · cases h
      exact hf.2.2
    · next children' hne hc =>
      cases h
      exact ⟨hne, bus_match_remove_below_full hc hf.2.1, hf.2.2⟩
    · obtain ⟨next', hn, rfl⟩ := Option.map_eq_some_iff.mp h
      exact ⟨hf.1, hf.2.1, bus_match_remove_full hn hf.2.2⟩

theorem bus_match_remove_below_full : ∀ {vs vs' : Values ι},
    bus_match_remove_below cb vs = some vs' → vs.full → vs'.full
  | .nil, _, h, _ => by
    cases h
  | .value v child next, vs', h, hf => by
    unfold bus_match_remove_below at h
    split at h
    · cases h
      exact hf.2.2
    · next child' hne hc =>
      cases h
      exact ⟨hne, bus_match_remove_full hc hf.2.1, hf.2.2⟩
    · obtain ⟨next', hn, rfl⟩ := Option.map_eq_some_iff.mp h
      exact ⟨hf.1, hf.2.1, bus_match_remove_below_full hn hf.2.2⟩

end

end remove

/-! ## Section 4: Running a full tree -/

section run
variable [DecidableEq ι] {env : RunEnv ι} {m : MatchMessage}

/-- Going on does not make the assertion fail. -/
theorem andThen_ne_abort {x : Outcome Int × RunState ι}
    {next : RunState ι → Outcome Int × RunState ι} (hx : x.1 ≠ .abort)
    (hnext : ∀ st, (next st).1 ≠ .abort) : (andThen x next).1 ≠ .abort := by
  unfold andThen
  split
  · split
    · simp
    · exact hnext _
  · exact hx

mutual

/-- The assertion of `bus_match_run` holds. -/
theorem bus_match_run_full : ∀ {nodes : Nodes ι} (st : RunState ι), nodes.full →
    (bus_match_run env m nodes st).1 ≠ .abort
  | .nil, st, _ => by simp [bus_match_run]
  | .leaf cb next, st, hf => by
    unfold bus_match_run
    split
    · simp
    · have hnext : next.full := hf
      exact andThen_ne_abort (by simp) fun st => bus_match_run_full st hnext
  | .compare t children next, st, hf => by
    unfold bus_match_run
    split
    · simp
    · apply andThen_ne_abort
      · have hpicks : ∀ (ps : List Pick) (x : Outcome Int × RunState ι), x.1 ≠ .abort →
            (ps.foldl (fun x p => andThen x (bus_match_run_values env m children p)) x).1 ≠
              .abort := by
          intro ps
          induction ps with
          | nil =>
            intro x hx
            exact hx
          | cons p ps ih =>
            intro x hx
            exact ih _ (andThen_ne_abort hx fun st => bus_match_run_values_full p st hf.2.1)
        exact hpicks _ _ (by simp)
      · intro st
        exact bus_match_run_full st hf.2.2

theorem bus_match_run_values_full : ∀ {vs : Values ι} (p : Pick) (st : RunState ι), vs.full →
    (bus_match_run_values env m vs p st).1 ≠ .abort
  | .nil, _, st, _ => by simp [bus_match_run_values]
  | .value v child next, .found same, st, hf => by
    unfold bus_match_run_values
    split
    · split
      · exact absurd rfl hf.1
      · exact bus_match_run_full st hf.2.1
    · exact bus_match_run_values_full _ st hf.2.2
  | .value v child next, .all test, st, hf => by
    unfold bus_match_run_values
    split
    · apply andThen_ne_abort
      · split
        · exact absurd rfl hf.1
        · exact bus_match_run_full st hf.2.1
      · intro st
        exact bus_match_run_values_full _ st hf.2.2
    · exact bus_match_run_values_full _ st hf.2.2

end

end run

/-! ## Section 5: Runs with failures -/

/-- Adding a rule with a number of allocations that succeed, and removing one. -/
inductive AllocLabel (ι : Type u) where
  | add (components : List BusMatchComponent) (callback : ι) (k : Nat)
  | remove (callback : ι)

section system
variable [DecidableEq ι]

/-- The match tree (`match_tree`) where memory can run out; a rule is installed
    when it was added with success. -/
def alloc_tree : System (MatchTree ι) (AllocLabel ι) where
  init := fun s => s.root = .nil ∧ s.installed = []
  step := fun s l s' =>
    match l with
    | .add components cb k =>
        (∀ r ∈ s.installed, r.2 ≠ cb) ∧
        s' = ⟨(bus_match_add_alloc cb k components s.root).2,
          if (bus_match_add_alloc cb k components s.root).1 then (components, cb) :: s.installed
          else s.installed⟩
    | .remove cb =>
        s' = ⟨(bus_match_remove cb s.root).getD s.root, s.installed.filter (·.2 ≠ cb)⟩

/-- An addition has memory for all of its nodes, or not for the first new one. -/
def Clean (s : MatchTree ι) : AllocLabel ι → Prop
  | .add components _ k =>
      k < first_allocs components s.root ∨ (allocs components s.root).sum ≤ k
  | .remove _ => True

variable {s : MatchTree ι}

/-- A failure that leaves nothing behind is no step of the tree. -/
theorem Clean.step {s' : MatchTree ι} {l : AllocLabel ι} (hc : Clean s l) (hf : s.root.full)
    (h : alloc_tree.step s l s') : s'.root.full ∧ (s' = s ∨ ∃ l', match_tree.step s l' s') := by
  cases l with
  | add components cb k =>
    obtain ⟨hnew, rfl⟩ := h
    obtain ⟨htotal, hfirst, _⟩ := bus_match_add_alloc_spec cb components hf k
    rcases hc with hk | hk
    · rw [hfirst hk]
      exact ⟨hf, .inl rfl⟩
    · rw [htotal hk]
      exact ⟨(bus_match_add_full cb components hf).2, .inr ⟨.add components cb, hnew, rfl⟩⟩
  | remove cb =>
    obtain rfl : s' = _ := h
    refine ⟨?_, .inr ⟨.remove cb, rfl⟩⟩
    cases hrem : bus_match_remove cb s.root with
    | none => exact hf
    | some root => exact bus_match_remove_full hrem hf

theorem Clean.reachable (hs : Reachable (alloc_tree.restrict Clean) s) :
    s.root.full ∧ Reachable match_tree s := by
  induction hs with
  | init h =>
    obtain ⟨hroot, hinstalled⟩ := h
    refine ⟨?_, .init ⟨hroot, hinstalled⟩⟩
    rw [hroot]
    trivial
  | step _ hst ih =>
    obtain ⟨hc, hstep⟩ := hst
    obtain ⟨hf, heq | ⟨l', hl'⟩⟩ := hc.step ih.1 hstep
    · rw [heq]
      exact ih
    · exact ⟨hf, ih.2.step hl'⟩

/-- **The match tree is well formed** in every run without a failure between
    two new nodes: no value node is without a child, and no compare node
    without a value, so that no run of the tree aborts; the leaf of every rule
    that was added is there; and a failing addition leaves the tree as it was,
    exactly if it is again of this kind. -/
theorem alloc_tree_full {s : MatchTree ι} (hs : Reachable (alloc_tree.restrict Clean) s) :
    s.root.full ∧
    (∀ env m st, (bus_match_run env m s.root st).1 ≠ .abort) ∧
    (∀ r ∈ s.installed, r.key ∈ s.root.rules) ∧
    ∀ components cb k, (bus_match_add_alloc cb k components s.root).1 = false →
      ((bus_match_add_alloc cb k components s.root).2 = s.root ↔
        Clean s (.add components cb k)) := by
  obtain ⟨hf, hreach⟩ := Clean.reachable hs
  refine ⟨hf, fun env m st => bus_match_run_full st hf, ?_, ?_⟩
  · intro r hr
    exact (MatchInv.of_reachable hreach).rules.mem_iff.mpr (mem_map_of_mem hr)
  · intro components cb k hfail
    obtain ⟨htotal, hfirst, hlater⟩ := bus_match_add_alloc_spec cb components hf k
    constructor
    · intro heq
      by_contra hc
      obtain ⟨h1, h2⟩ := not_or.mp hc
      apply (hlater (by omega) (by omega)).2
      rw [heq]
      exact hf
    · rintro (hk | hk)
      · rw [hfirst hk]
      · rw [htotal hk] at hfail
        cases hfail

end system

/-- After two additions, the second of which has no memory for its second
    node. -/
theorem alloc_tree_full_example :
    (with_rule [type_signal] 0 ⟨.nil, []⟩).root.full ∧
      ∀ env m st, (bus_match_run env m (with_rule [type_signal] 0 ⟨.nil, []⟩).root st).1 ≠ .abort := by
  have h0 : Reachable (alloc_tree.restrict Clean) (⟨.nil, []⟩ : MatchTree Nat) := .init ⟨rfl, rfl⟩
  have h1 : Reachable (alloc_tree.restrict Clean) (with_rule [type_signal] 0 ⟨.nil, []⟩) :=
    h0.step (a := .add [type_signal] 0 5) ⟨.inr (by decide), by simp, rfl⟩
  have h2 : Reachable (alloc_tree.restrict Clean) (with_rule [type_signal] 0 ⟨.nil, []⟩) :=
    h1.step (a := .add [type_signal, member_is "M"] 1 1) ⟨.inl (by decide), by decide, rfl⟩
  obtain ⟨hfull, hrun, _⟩ := alloc_tree_full h2
  exact ⟨hfull, hrun⟩

/-- Without memory for the leaf of the first rule its value node stays, without
    a child, and a signal makes the assertion of `bus_match_run` fail. -/
theorem alloc_tree_abort :
    ¬ ∀ s : MatchTree Nat, Reachable alloc_tree s → s.root.full ∧
      ∀ env m st, (bus_match_run env m s.root st).1 ≠ .abort := by
  intro hall
  have h0 : Reachable alloc_tree (⟨.nil, []⟩ : MatchTree Nat) := .init ⟨rfl, rfl⟩
  have hs : Reachable alloc_tree
      (⟨(bus_match_add_alloc 0 4 [type_signal] .nil).2, []⟩ : MatchTree Nat) :=
    h0.step (a := .add [type_signal] 0 4) ⟨by simp, rfl⟩
  exact (hall _ hs).2 quiet_env some_signal ⟨fun _ => a_callback false, false, []⟩ rfl

end SdCompat.Match
