import SdCompat.Lib.Transition
import SdCompat.SdBus.Match
import Mathlib.Data.List.Perm.Basic

/-! # The match tree runs the rules that match

    The tree stands for the list of the rules that were added and not removed
    (Section 2 and 3), and running it comes down to running the leaves of
    those rules whose components all match (Section 4 and 5).
-/

universe u

open Transition
open scoped List

namespace SdCompat.Match

open List BusMatchComponent Values

variable {ι : Type u}

/-! ## Section 1: Components up to the part of the value that counts -/

/-- The component with the part of its value that its type does not look at
    left out. -/
def BusMatchComponent.key (c : BusMatchComponent) : BusMatchComponent :=
  if c.type = .message_type then ⟨c.type, ⟨c.value.u8, []⟩⟩ else ⟨c.type, ⟨0, c.value.str⟩⟩

variable {t : BusMatchNodeType}

variable {v w : BusMatchValue}

theorem value_node_same_iff : value_node_same t v w ↔
      (⟨t, v⟩ : BusMatchComponent).key = (⟨t, w⟩ : BusMatchComponent).key := by
  unfold value_node_same key
  by_cases h : t = .message_type <;> simp [h]

/-- Tests look at the part that counts only. -/
theorem BusMatchComponent.test_key (c : BusMatchComponent) (m : MatchMessage) :
    c.key.test m = c.test m := by
  obtain ⟨t, v⟩ := c
  cases t <;> rfl

/-! ## Section 2: The rules in a tree -/

/-- A rule: its components and its callback. -/
abbrev Rule (ι : Type u) := List BusMatchComponent × ι

mutual

/-- The rules whose leaves stand here. -/
def Nodes.rules : Nodes ι → List (Rule ι)
  | .nil => []
  | .leaf cb next => ([], cb) :: next.rules
  | .compare t children next => children.rules t ++ next.rules

/-- The rules whose leaves stand below these value nodes. -/
def Values.rules (t : BusMatchNodeType) : Values ι → List (Rule ι)
  | .nil => []
  | .value v child next =>
    child.rules.map (fun r => ((⟨t, v⟩ : BusMatchComponent).key :: r.1, r.2)) ++ next.rules t

end

/-- The value nodes with what stands below them. -/
def Values.entries : Values ι → List (BusMatchValue × Nodes ι)
  | .nil => []
  | .value v child next => (v, child) :: next.entries

mutual

/-- Every value node has a child, and no two value nodes below one compare
    node have the same value. -/
def Nodes.wf : Nodes ι → Prop
  | .nil => True
  | .leaf _ next => next.wf
  | .compare t children next => children.wf t ∧ next.wf

/-- The same for value nodes. -/
def Values.wf (t : BusMatchNodeType) : Values ι → Prop
  | .nil => True
  | .value v child next =>
    child ≠ .nil ∧ child.wf ∧ (∀ e ∈ next.entries, ¬ value_node_same t e.1 v) ∧ next.wf t

end

/-! ### Adding -/

section add
variable {t : BusMatchNodeType} {v : BusMatchValue}

variable {r : Rule ι}

/-- If the change below the compare node adds one rule, so does the whole. -/
theorem Nodes.update_rules {f : Values ι → Values ι} (hf : ∀ vs, (f vs).rules t ~ r :: vs.rules t) :
    ∀ {nodes nodes' : Nodes ι}, nodes.update t f = some nodes' → nodes'.rules ~ r :: nodes.rules
  | .nil, _, h => by cases h
  | .leaf cb next, _, h => by
    obtain ⟨next', hn, rfl⟩ := Option.map_eq_some_iff.mp h
    exact ((Nodes.update_rules hf hn).cons _).trans (.swap _ _ _)
  | .compare t' children next, nodes', h => by
    unfold Nodes.update at h
    split at h
    · next ht =>
      subst ht
      cases h
      exact (hf children).append_right _
    · obtain ⟨next', hn, rfl⟩ := Option.map_eq_some_iff.mp h
      exact ((Nodes.update_rules hf hn).append_left _).trans perm_middle

variable {f : Nodes ι → Nodes ι}

/-- If the change below the value node adds one rule, the whole adds it with
    one component more. -/
theorem Values.update_rules (hf : ∀ nodes, (f nodes).rules ~ r :: nodes.rules) :
    ∀ {vs vs' : Values ι}, vs.update t v f = some vs' →
      vs'.rules t ~ ((⟨t, v⟩ : BusMatchComponent).key :: r.1, r.2) :: vs.rules t
  | .nil, _, h => by cases h
  | .value w child next, vs', h => by
    unfold update at h
    split at h
    · next hs =>
      cases h
      unfold rules
      rw [value_node_same_iff.mp hs]
      exact ((hf child).map _).append_right _
    · obtain ⟨next', hn, rfl⟩ := Option.map_eq_some_iff.mp h
      exact ((update_rules hf hn).append_left _).trans perm_middle

/-- A change leaves the values as they are. -/
theorem Values.update_values :
    ∀ {vs vs' : Values ι}, vs.update t v f = some vs' →
      vs'.entries.map Prod.fst = vs.entries.map Prod.fst
  | .nil, _, h => by cases h
  | .value w child next, vs', h => by
    unfold update at h
    split at h
    · cases h
      rfl
    · obtain ⟨next', hn, rfl⟩ := Option.map_eq_some_iff.mp h
      exact congrArg (w :: ·) (update_values hn)

/-- Nothing is changed only if there is no such value node. -/
theorem Values.update_none :
    ∀ {vs : Values ι}, vs.update t v f = none → ∀ e ∈ vs.entries, ¬ value_node_same t e.1 v
  | .nil, _ => by simp [entries]
  | .value w child next, h => by
    unfold update at h
    split at h
    · cases h
    · next hs =>
      have hnext := update_none (Option.map_eq_none_iff.mp h)
      intro e he
      rcases mem_cons.mp he with rfl | he
      · exact hs
      · exact hnext e he

theorem Nodes.update_wf {f : Values ι → Values ι} (hf : ∀ vs, vs.wf t → (f vs).wf t) :
    ∀ {nodes nodes' : Nodes ι}, nodes.update t f = some nodes' → nodes.wf → nodes'.wf
  | .nil, _, h, _ => by cases h
  | .leaf cb next, _, h, hw => by
    obtain ⟨next', hn, rfl⟩ := Option.map_eq_some_iff.mp h
    have hw' : next'.wf := Nodes.update_wf hf hn hw
    exact hw'
  | .compare t' children next, nodes', h, hw => by
    unfold Nodes.update at h
    split at h
    · next ht =>
      subst ht
      cases h
      exact ⟨hf _ hw.1, hw.2⟩
    · obtain ⟨next', hn, rfl⟩ := Option.map_eq_some_iff.mp h
      exact ⟨hw.1, Nodes.update_wf hf hn hw.2⟩

theorem Values.update_wf (hf : ∀ nodes, nodes.wf → (f nodes).wf ∧ f nodes ≠ .nil) :
    ∀ {vs vs' : Values ι}, vs.update t v f = some vs' → vs.wf t → vs'.wf t
  | .nil, _, h, _ => by cases h
  | .value w child next, vs', h, hw => by
    obtain ⟨hne, hchild, hdist, hnext⟩ := hw
    unfold update at h
    split at h
    · cases h
      exact ⟨(hf _ hchild).2, (hf _ hchild).1, hdist, hnext⟩
    · obtain ⟨next', hn, rfl⟩ := Option.map_eq_some_iff.mp h
      refine ⟨hne, hchild, ?_, update_wf hf hn hnext⟩
      intro e he
      have : e.1 ∈ next'.entries.map Prod.fst := mem_map_of_mem he
      rw [update_values hn] at this
      obtain ⟨e', he', heq⟩ := mem_map.mp this
      rw [← heq]
      exact hdist e' he'

end add

variable {nodes : Nodes ι}

/-- Something stands where a node was changed. -/
theorem Nodes.update_ne_nil {f : Values ι → Values ι} {nodes' : Nodes ι}
    (h : nodes.update t f = some nodes') : nodes' ≠ .nil := by
  match nodes with
  | .nil => cases h
  | .leaf cb next =>
    obtain ⟨_, _, rfl⟩ := Option.map_eq_some_iff.mp h
    simp
  | .compare t' children next =>
    unfold Nodes.update at h
    split at h
    · cases h
      simp
    · obtain ⟨_, _, rfl⟩ := Option.map_eq_some_iff.mp h
      simp

/-- **Adding a rule adds the rule.** -/
theorem bus_match_add_rules (cb : ι) (components : List BusMatchComponent) (nodes : Nodes ι) :
    (bus_match_add cb components nodes).rules ~
      (components.map BusMatchComponent.key, cb) :: nodes.rules := by
  induction components generalizing nodes with
  | nil => exact .refl _
  | cons c components ih =>
    have hnew : ∀ vs : Values ι,
        ((vs.update c.type c.value (bus_match_add cb components)).getD
          (.value c.value (bus_match_add cb components .nil) vs)).rules c.type ~
        ((c :: components).map key, cb) :: vs.rules c.type := by
      intro vs
      match hu : vs.update c.type c.value (bus_match_add cb components) with
      | some vs' => exact update_rules ih hu
      | none => exact ((ih .nil).map _).append_right _
    unfold bus_match_add bus_match_add_compare_value
    split
    · next nodes' hu => exact Nodes.update_rules hnew hu
    · exact (((ih .nil).map _).append_right _).append_right _

/-- Adding a rule keeps the tree well formed, and something stands there. -/
theorem bus_match_add_wf (cb : ι) (components : List BusMatchComponent) (hw : nodes.wf) :
    (bus_match_add cb components nodes).wf ∧ bus_match_add cb components nodes ≠ .nil := by
  induction components generalizing nodes with
  | nil => exact ⟨hw, by simp [bus_match_add]⟩
  | cons c components ih =>
    have hbelow : (bus_match_add cb components (.nil : Nodes ι)).wf ∧
        bus_match_add cb components (.nil : Nodes ι) ≠ .nil := ih (by simp [Nodes.wf])
    have hnew : ∀ vs : Values ι, vs.wf c.type →
        ((vs.update c.type c.value (bus_match_add cb components)).getD
          (.value c.value (bus_match_add cb components .nil) vs)).wf c.type := by
      intro vs hvs
      match hu : vs.update c.type c.value (bus_match_add cb components) with
      | some vs' => exact update_wf (fun nodes h => ih h) hu hvs
      | none => exact ⟨hbelow.2, hbelow.1, update_none hu, hvs⟩
    unfold bus_match_add bus_match_add_compare_value
    split
    · next nodes' hu => exact ⟨Nodes.update_wf hnew hu hw, Nodes.update_ne_nil hu⟩
    · refine ⟨⟨⟨hbelow.2, hbelow.1, ?_, trivial⟩, hw⟩, by simp⟩
      simp [entries]

/-! ### Removing -/

section remove
variable [DecidableEq ι] {cb : ι}

mutual

/-- Removing a callback takes its rule out. -/
theorem bus_match_remove_rules : ∀ {nodes nodes' : Nodes ι},
    bus_match_remove cb nodes = some nodes' → ∃ p, nodes.rules ~ (p, cb) :: nodes'.rules
  | .nil, _, h => by
    cases h
  | .leaf cb' next, nodes', h => by
    unfold bus_match_remove at h
    split at h
    · next he =>
      cases h
      exact ⟨[], by rw [he]; exact .refl _⟩
    · obtain ⟨next', hn, rfl⟩ := Option.map_eq_some_iff.mp h
      obtain ⟨p, hp⟩ := bus_match_remove_rules hn
      exact ⟨p, (hp.cons _).trans (.swap _ _ _)⟩
  | .compare t children next, nodes', h => by
    unfold bus_match_remove at h
    split at h
    · next hc =>
      -- the compare node goes with its last child
      cases h
      obtain ⟨p, hp⟩ := bus_match_remove_below_rules t hc
      exact ⟨p, hp.append_right _⟩
    · next children' _ hc =>
      cases h
      obtain ⟨p, hp⟩ := bus_match_remove_below_rules t hc
      exact ⟨p, hp.append_right _⟩
    · obtain ⟨next', hn, rfl⟩ := Option.map_eq_some_iff.mp h
      obtain ⟨p, hp⟩ := bus_match_remove_rules hn
      exact ⟨p, (hp.append_left _).trans perm_middle⟩

theorem bus_match_remove_below_rules (t : BusMatchNodeType) : ∀ {vs vs' : Values ι},
    bus_match_remove_below cb vs = some vs' → ∃ p, vs.rules t ~ (p, cb) :: vs'.rules t
  | .nil, _, h => by
    cases h
  | .value v child next, vs', h => by
    unfold bus_match_remove_below at h
    split at h
    · next hc =>
      cases h
      obtain ⟨p, hp⟩ := bus_match_remove_rules hc
      exact ⟨_, (hp.map _).append_right _⟩
    · next child' _ hc =>
      cases h
      obtain ⟨p, hp⟩ := bus_match_remove_rules hc
      exact ⟨_, (hp.map _).append_right _⟩
    · obtain ⟨next', hn, rfl⟩ := Option.map_eq_some_iff.mp h
      obtain ⟨p, hp⟩ := bus_match_remove_below_rules t hn
      exact ⟨p, (hp.append_left _).trans perm_middle⟩

end

mutual

/-- A callback that is not found has no rule. -/
theorem bus_match_remove_none : ∀ {nodes : Nodes ι},
    bus_match_remove cb nodes = none → ∀ r ∈ nodes.rules, r.2 ≠ cb
  | .nil, _ => by simp [Nodes.rules]
  | .leaf cb' next, h => by
    unfold bus_match_remove at h
    split at h
    · cases h
    · next hne =>
      have hnext := bus_match_remove_none (Option.map_eq_none_iff.mp h)
      intro r hr
      rcases mem_cons.mp hr with rfl | hr
      · exact hne
      · exact hnext r hr
  | .compare t children next, h => by
    unfold bus_match_remove at h
    split at h
    · cases h
    · cases h
    · next hc =>
      have hnext := bus_match_remove_none (Option.map_eq_none_iff.mp h)
      have hbelow := bus_match_remove_below_none t hc
      intro r hr
      rcases mem_append.mp hr with hr | hr
      · exact hbelow r hr
      · exact hnext r hr

theorem bus_match_remove_below_none (t : BusMatchNodeType) : ∀ {vs : Values ι},
    bus_match_remove_below cb vs = none → ∀ r ∈ vs.rules t, r.2 ≠ cb
  | .nil, _ => by simp [rules]
  | .value v child next, h => by
    unfold bus_match_remove_below at h
    split at h
    · cases h
    · cases h
    · next hc =>
      have hnext := bus_match_remove_below_none t (Option.map_eq_none_iff.mp h)
      have hchild := bus_match_remove_none hc
      intro r hr
      rcases mem_append.mp hr with hr | hr
      · obtain ⟨r', hr', rfl⟩ := mem_map.mp hr
        exact hchild r' hr'
      · exact hnext r hr

end

/-- Removing leaves at most the values that were there. -/
theorem bus_match_remove_below_values : ∀ {vs vs' : Values ι},
    bus_match_remove_below cb vs = some vs' →
      ∀ e ∈ vs'.entries, ∃ e' ∈ vs.entries, e'.1 = e.1
  | .nil, _, h => by
    cases h
  | .value v child next, vs', h => by
    unfold bus_match_remove_below at h
    split at h
    · cases h
      exact fun e he => ⟨e, mem_cons_of_mem _ he, rfl⟩
    · next child' _ _ =>
      cases h
      intro e he
      rcases mem_cons.mp he with rfl | he
      · exact ⟨_, mem_cons_self, rfl⟩
      · exact ⟨e, mem_cons_of_mem _ he, rfl⟩
    · obtain ⟨next', hn, rfl⟩ := Option.map_eq_some_iff.mp h
      intro e he
      rcases mem_cons.mp he with rfl | he
      · exact ⟨_, mem_cons_self, rfl⟩
      · obtain ⟨e', he', heq⟩ := bus_match_remove_below_values hn e he
        exact ⟨e', mem_cons_of_mem _ he', heq⟩

mutual

/-- Removing keeps the tree well formed. -/
theorem bus_match_remove_wf : ∀ {nodes nodes' : Nodes ι},
    bus_match_remove cb nodes = some nodes' → nodes.wf → nodes'.wf
  | .nil, _, h, _ => by
    cases h
  | .leaf cb' next, nodes', h, hw => by
    unfold bus_match_remove at h
    split at h
    · cases h
      exact hw
    · obtain ⟨next', hn, rfl⟩ := Option.map_eq_some_iff.mp h
      have hw' : next'.wf := bus_match_remove_wf hn hw
      exact hw'
  | .compare t children next, nodes', h, hw => by
    unfold bus_match_remove at h
    split at h
    · cases h
      exact hw.2
    · next children' _ hc =>
      cases h
      exact ⟨bus_match_remove_below_wf t hc hw.1, hw.2⟩
    · obtain ⟨next', hn, rfl⟩ := Option.map_eq_some_iff.mp h
      exact ⟨hw.1, bus_match_remove_wf hn hw.2⟩

theorem bus_match_remove_below_wf (t : BusMatchNodeType) : ∀ {vs vs' : Values ι},
    bus_match_remove_below cb vs = some vs' → vs.wf t → vs'.wf t
  | .nil, _, h, _ => by
    cases h
  | .value v child next, vs', h, hw => by
    obtain ⟨hne, hchild, hdist, hnext⟩ := hw
    unfold bus_match_remove_below at h
    split at h
    · cases h
      exact hnext
    · next child' hne' hc =>
      cases h
      exact ⟨hne', bus_match_remove_wf hc hchild, hdist, hnext⟩
    · obtain ⟨next', hn, rfl⟩ := Option.map_eq_some_iff.mp h
      refine ⟨hne, hchild, ?_, bus_match_remove_below_wf t hn hnext⟩
      intro e he
      obtain ⟨e', he', heq⟩ := bus_match_remove_below_values hn e he
      rw [← heq]
      exact hdist e' he'

end

end remove

/-! ## Section 3: The leaves a message reaches -/

/-- The value nodes a pick takes. -/
def Pick.accepts : Pick → BusMatchValue → Bool
  | .found same => same
  | .all test => test

mutual

/-- The callbacks of the leaves that a run comes to, in order. -/
def visited (m : MatchMessage) : Nodes ι → List ι
  | .nil => []
  | .leaf cb next => cb :: visited m next
  | .compare t children next =>
    (picks m t).flatMap (visited_values m children) ++ visited m next

/-- The same below the value nodes that are picked. -/
def visited_values (m : MatchMessage) : Values ι → Pick → List ι
  | .nil, _ => []
  | .value v child next, .found same =>
    if same v then visited m child else visited_values m next (.found same)
  | .value v child next, .all test =>
    if test v then visited m child ++ visited_values m next (.all test)
    else visited_values m next (.all test)

end

/-- A pick takes a value node exactly when the value node's own test says so. -/
theorem picks_accept (m : MatchMessage) (t : BusMatchNodeType) (v : BusMatchValue) :
    (∃ p ∈ picks m t, p.accepts v) ↔ value_node_test v t (test_values m t) m := by
  cases t with
  | arg_has i =>
    unfold picks value_node_test test_values
    cases h : bus_message_get_arg_strv m i with
    | none => simp [BUS_MATCH_CAN_HASH, h]
    | some l => simp [BUS_MATCH_CAN_HASH, h, Pick.accepts]
  | sender => simp [picks, BUS_MATCH_CAN_HASH, Pick.accepts]
  | message_type => simp [picks, BUS_MATCH_CAN_HASH, Pick.accepts, test_values, value_node_test]
  | destination =>
    cases h : m.destination <;>
      simp [picks, BUS_MATCH_CAN_HASH, Pick.accepts, test_values, value_node_test, h]
  | interface =>
    cases h : m.interface <;>
      simp [picks, BUS_MATCH_CAN_HASH, Pick.accepts, test_values, value_node_test, h]
  | member =>
    cases h : m.member <;>
      simp [picks, BUS_MATCH_CAN_HASH, Pick.accepts, test_values, value_node_test, h]
  | path =>
    cases h : m.path <;>
      simp [picks, BUS_MATCH_CAN_HASH, Pick.accepts, test_values, value_node_test, h]
  | arg i =>
    cases h : bus_message_get_arg m i <;>
      simp [picks, BUS_MATCH_CAN_HASH, Pick.accepts, test_values, value_node_test, h]
  | path_namespace => simp [picks, BUS_MATCH_CAN_HASH, Pick.accepts]
  | arg_path i => simp [picks, BUS_MATCH_CAN_HASH, Pick.accepts]
  | arg_namespace i => simp [picks, BUS_MATCH_CAN_HASH, Pick.accepts]

/-- A lookup finds value nodes of one value only. -/
theorem picks_found_same {m : MatchMessage} {same : BusMatchValue → Bool}
    (hp : Pick.found same ∈ picks m t) (hv : same v) (hw : same w) : value_node_same t v w := by
  -- a lookup by string is not made below the message type, one by byte only there
  have hstr : ∀ s : List UInt8, t ≠ .message_type → (same = fun v => v.str == s) →
      value_node_same t v w := by
    rintro s ht rfl
    have hv' : v.str = s := by simpa using hv
    have hw' : w.str = s := by simpa using hw
    simp [value_node_same, ht, hv', hw']
  unfold picks at hp
  by_cases ht : t = .message_type
  · subst ht
    have hsame : same = fun v => v.u8 == m.type := by
      simpa [BUS_MATCH_CAN_HASH, test_values] using hp
    subst hsame
    have hv' : v.u8 = m.type := by simpa using hv
    have hw' : w.u8 = m.type := by simpa using hw
    simp [value_node_same, hv', hw']
  · dsimp only at hp
    split at hp
    · split at hp
      · next s _ => exact hstr _ ht (by simpa using hp)
      · obtain ⟨s, -, hs⟩ := mem_map.mp hp
        exact hstr s ht (by simpa using hs.symm)
      · simp at hp
    · simp at hp

/-- Below the picked value nodes stand the leaves that are visited. -/
theorem mem_visited_values (m : MatchMessage) (cb : ι) {p : Pick}
    (hp : ∀ same, p = .found same → ∀ v w, same v → same w → value_node_same t v w) :
    ∀ {vs : Values ι}, vs.wf t →
      (cb ∈ visited_values m vs p ↔ ∃ e ∈ vs.entries, p.accepts e.1 ∧ cb ∈ visited m e.2)
  | .nil, _ => by simp [visited_values, entries]
  | .value v child next, hw => by
    obtain ⟨-, -, hdist, hnext⟩ := hw
    have ih := mem_visited_values m cb hp hnext
    cases p with
    | found same =>
      unfold visited_values
      split
      · next hs =>
        -- no value node behind the one found is of the same value
        have hother : ∀ e ∈ next.entries, ¬ same e.1 :=
          fun e he h => hdist e he (hp same rfl e.1 v h hs)
        simp only [entries, mem_cons, exists_eq_or_imp, Pick.accepts, hs, true_and]
        exact ⟨.inl, fun h => h.resolve_right fun ⟨e, he, hse, _⟩ => hother e he hse⟩
      · next hs => simpa [entries, Pick.accepts, hs] using ih
    | all test =>
      unfold visited_values
      split
      · next hs => simp [entries, Pick.accepts, hs, ih]
      · next hs => simpa [entries, Pick.accepts, hs] using ih

/-- The rules below value nodes, by value node. -/
theorem mem_values_rules {r : Rule ι} : ∀ {vs : Values ι},
    r ∈ vs.rules t ↔ ∃ e ∈ vs.entries, ∃ p, r.1 = (⟨t, e.1⟩ : BusMatchComponent).key :: p ∧
      (p, r.2) ∈ e.2.rules
  | .nil => by simp [rules, entries]
  | .value v child next => by
    unfold rules entries
    have ih : r ∈ next.rules t ↔ _ := mem_values_rules
    rw [mem_append, ih, mem_map]
    simp only [mem_cons, exists_eq_or_imp]
    refine or_congr_left ⟨?_, ?_⟩
    · rintro ⟨r', hr', rfl⟩
      exact ⟨r'.1, rfl, hr'⟩
    · rintro ⟨p, hp, hr⟩
      exact ⟨(p, r.2), hr, Prod.ext hp.symm rfl⟩

mutual

/-- **The leaves visited are those of the rules that match.** -/
theorem mem_visited (m : MatchMessage) (cb : ι) : ∀ {nodes : Nodes ι}, nodes.wf →
    (cb ∈ visited m nodes ↔ ∃ p, (p, cb) ∈ nodes.rules ∧ ∀ c ∈ p, c.test m)
  | .nil, _ => by simp [visited, Nodes.rules]
  | .leaf cb' next, hw => by
    have ih := mem_visited m cb (show next.wf from hw)
    simp only [visited, Nodes.rules, mem_cons, ih, Prod.mk.injEq]
    constructor
    · rintro (rfl | ⟨p, hp, ht⟩)
      · exact ⟨[], .inl ⟨rfl, rfl⟩, by simp⟩
      · exact ⟨p, .inr hp, ht⟩
    · rintro ⟨p, ⟨-, rfl⟩ | hp, ht⟩
      · exact .inl rfl
      · exact .inr ⟨p, hp, ht⟩
  | .compare t children next, hw => by
    have hnext := mem_visited m cb hw.2
    have hchildren := mem_visited_below m cb t hw.1
    have hpick : (∃ p ∈ picks m t, cb ∈ visited_values m children p) ↔
        ∃ e ∈ children.entries, value_node_test e.1 t (test_values m t) m ∧
          cb ∈ visited m e.2 := by
      have hsame : ∀ p ∈ picks m t, ∀ same, p = .found same → ∀ v w, same v → same w →
          value_node_same t v w := by
        rintro p hp same rfl v w hv hw
        exact picks_found_same hp hv hw
      constructor
      · rintro ⟨p, hp, h⟩
        obtain ⟨e, he, ha, hv⟩ := (mem_visited_values m cb (hsame p hp) hw.1).mp h
        exact ⟨e, he, (picks_accept m t e.1).mp ⟨p, hp, ha⟩, hv⟩
      · rintro ⟨e, he, ht, hv⟩
        obtain ⟨p, hp, ha⟩ := (picks_accept m t e.1).mpr ht
        exact ⟨p, hp, (mem_visited_values m cb (hsame p hp) hw.1).mpr ⟨e, he, ha, hv⟩⟩
    simp only [visited, Nodes.rules, mem_append, mem_flatMap, hpick, hnext]
    constructor
    · rintro (⟨e, he, ht, hv⟩ | ⟨p, hp, ht⟩)
      · obtain ⟨p, hp, htp⟩ := (hchildren e he).mp hv
        refine ⟨_, .inl (mem_values_rules.mpr ⟨e, he, p, rfl, hp⟩), ?_⟩
        intro c hc
        rcases mem_cons.mp hc with rfl | hc
        · rw [test_key]
          exact ht
        · exact htp c hc
      · exact ⟨p, .inr hp, ht⟩
    · rintro ⟨p, hp | hp, ht⟩
      · obtain ⟨e, he, p', rfl, hp'⟩ := mem_values_rules.mp hp
        refine .inl ⟨e, he, ?_, (hchildren e he).mpr ⟨p', hp', fun c hc => ht c (by simp [hc])⟩⟩
        have := ht _ mem_cons_self
        rw [test_key] at this
        exact this
      · exact .inr ⟨p, hp, ht⟩

theorem mem_visited_below (m : MatchMessage) (cb : ι) (t : BusMatchNodeType) :
    ∀ {vs : Values ι}, vs.wf t → ∀ e ∈ vs.entries,
      (cb ∈ visited m e.2 ↔ ∃ p, (p, cb) ∈ e.2.rules ∧ ∀ c ∈ p, c.test m)
  | .nil, _ => by simp [entries]
  | .value v child next, hw => by
    obtain ⟨-, hchild, -, hnext⟩ := hw
    have hc := mem_visited m cb hchild
    have hn := mem_visited_below m cb t hnext
    intro e he
    rcases mem_cons.mp he with rfl | he
    · exact hc
    · exact hn e he

end

/-! ## Section 4: Running is visiting -/

section run
variable [DecidableEq ι]

/-- The callbacks return zero, set no error and do not modify the tree. -/
def RunEnv.quiet (env : RunEnv ι) : Prop :=
  ∀ cb, (env.effect cb).result = 0 ∧ (env.effect cb).error_set = false ∧
    (env.effect cb).modifies = false

/-- Leaves run one after the other. -/
def run_leaves (env : RunEnv ι) (m : MatchMessage) (cbs : List ι) (st : RunState ι) : RunState ι :=
  cbs.foldl (fun st cb => (run_leaf env m cb st).2) st

@[simp] theorem run_leaves_nil (env : RunEnv ι) (m : MatchMessage) (st : RunState ι) :
    run_leaves env m [] st = st := rfl

@[simp] theorem run_leaves_cons (env : RunEnv ι) (m : MatchMessage) (cb : ι) (cbs : List ι)
    (st : RunState ι) :
    run_leaves env m (cb :: cbs) st = run_leaves env m cbs (run_leaf env m cb st).2 := rfl

@[simp] theorem run_leaves_append (env : RunEnv ι) (m : MatchMessage) (cbs cbs' : List ι)
    (st : RunState ι) :
    run_leaves env m (cbs ++ cbs') st = run_leaves env m cbs' (run_leaves env m cbs st) :=
  foldl_append

variable {env : RunEnv ι} {m : MatchMessage}

@[simp] theorem mark_iteration_modified (cb : ι) (st : RunState ι) :
    (mark_iteration env cb st).match_callbacks_modified = st.match_callbacks_modified := by
  unfold mark_iteration
  split <;> rfl

@[simp] theorem mark_iteration_invoked (cb : ι) (st : RunState ι) :
    (mark_iteration env cb st).invoked = st.invoked := by
  unfold mark_iteration
  split <;> rfl

/-- A quiet leaf returns zero and leaves the tree alone. -/
theorem run_leaf_quiet (hq : env.quiet) (cb : ι) (st : RunState ι) : (run_leaf env m cb st).1 = 0 ∧
    (run_leaf env m cb st).2.match_callbacks_modified = st.match_callbacks_modified := by
  obtain ⟨hr, he, hm⟩ := hq cb
  unfold run_leaf
  split
  · exact ⟨rfl, rfl⟩
  · dsimp only
    split
    · simp [bus_maybe_reply_error, hr, he, hm]
    · simp

theorem run_leaves_modified (hq : env.quiet) (cbs : List ι) (st : RunState ι) :
    (run_leaves env m cbs st).match_callbacks_modified = st.match_callbacks_modified := by
  induction cbs generalizing st with
  | nil => rfl
  | cons cb cbs ih => rw [run_leaves_cons, ih, (run_leaf_quiet hq cb st).2]

omit [DecidableEq ι] in
/-- With an unmodified tree and no result yet the run goes on. -/
theorem andThen_quiet {st : RunState ι} (h : st.match_callbacks_modified = false)
    (next : RunState ι → Outcome Int × RunState ι) : andThen (.ok 0, st) next = next st := by
  simp [andThen, h]

mutual

/-- **Running the tree runs the leaves visited**, and no assertion fails. -/
theorem bus_match_run_visited (hq : env.quiet) : ∀ {nodes : Nodes ι} {st : RunState ι},
    nodes.wf → st.match_callbacks_modified = false →
      bus_match_run env m nodes st = (.ok 0, run_leaves env m (visited m nodes) st)
  | .nil, st, _, _ => rfl
  | .leaf cb next, st, hw, hm => by
    obtain ⟨hr, hm'⟩ := run_leaf_quiet (m := m) hq cb st
    unfold bus_match_run
    rw [hm, if_neg (by simp)]
    dsimp only
    rw [hr, andThen_quiet (hm'.trans hm), visited, run_leaves_cons]
    exact bus_match_run_visited hq hw (hm'.trans hm)
  | .compare t children next, st, hw, hm => by
    have hfold : ∀ (ps : List Pick) (st : RunState ι), st.match_callbacks_modified = false →
        ps.foldl (fun x p => andThen x (bus_match_run_values env m children p)) (.ok 0, st) =
          (.ok 0, run_leaves env m (ps.flatMap (visited_values m children)) st) := by
      intro ps
      induction ps with
      | nil => exact fun st _ => rfl
      | cons p ps ih =>
        intro st hst
        rw [foldl_cons, andThen_quiet hst, bus_match_run_values_visited hq t hw.1 p hst]
        rw [ih _ ((run_leaves_modified hq _ _).trans hst), flatMap_cons, run_leaves_append]
    unfold bus_match_run
    rw [hm, if_neg (by simp), hfold _ _ hm]
    have hm' := (run_leaves_modified (m := m) hq
      ((picks m t).flatMap (visited_values m children)) st).trans hm
    rw [andThen_quiet hm', visited, run_leaves_append]
    exact bus_match_run_visited hq hw.2 hm'

theorem bus_match_run_values_visited (hq : env.quiet) (t : BusMatchNodeType) :
    ∀ {vs : Values ι}, vs.wf t → ∀ (p : Pick) {st : RunState ι},
      st.match_callbacks_modified = false →
      bus_match_run_values env m vs p st = (.ok 0, run_leaves env m (visited_values m vs p) st)
  | .nil, _, .found same, st, _ => rfl
  | .nil, _, .all test, st, _ => rfl
  | .value v child next, hw, .found same, st, hm => by
    obtain ⟨hne, hchild, -, hnext⟩ := hw
    unfold bus_match_run_values visited_values
    split
    · match child, hne with
      | .leaf cb next', _ => exact bus_match_run_visited hq hchild hm
      | .compare t' vs' next', _ => exact bus_match_run_visited hq hchild hm
    · exact bus_match_run_values_visited hq t hnext (.found same) hm
  | .value v child next, hw, .all test, st, hm => by
    obtain ⟨hne, hchild, -, hnext⟩ := hw
    have hrun : bus_match_run env m child st = _ := bus_match_run_visited hq hchild hm
    have hm' := (run_leaves_modified (m := m) hq (visited m child) st).trans hm
    unfold bus_match_run_values visited_values
    split
    · cases child with
      | nil => exact absurd rfl hne
      | leaf cb next' =>
        simp only [hrun, andThen_quiet hm', run_leaves_append]
        exact bus_match_run_values_visited hq t hnext (.all test) hm'
      | compare t' vs' next' =>
        simp only [hrun, andThen_quiet hm', run_leaves_append]
        exact bus_match_run_values_visited hq t hnext (.all test) hm'
    · exact bus_match_run_values_visited hq t hnext (.all test) hm

end

/-! ### What a sequence of leaves invokes -/

/-- A leaf that is not skipped is marked, and its function is invoked if it
    has one; any other leaf changes nothing. -/
theorem run_leaf_cases (env : RunEnv ι) (m : MatchMessage) (cb : ι) (st : RunState ι) :
    (leaf_skipped env m (st.callbacks cb) ∧ (run_leaf env m cb st).2 = st) ∨
    (¬ leaf_skipped env m (st.callbacks cb) ∧
      (run_leaf env m cb st).2.callbacks = (mark_iteration env cb st).callbacks ∧
      (run_leaf env m cb st).2.invoked =
        st.invoked ++ if (st.callbacks cb).callback then [cb] else []) := by
  have hcb : ((mark_iteration env cb st).callbacks cb).callback = (st.callbacks cb).callback := by
    unfold mark_iteration
    split
    · rfl
    · simp
  unfold run_leaf
  by_cases hs : leaf_skipped env m (st.callbacks cb)
  · rw [if_pos hs]
    exact .inl ⟨hs, rfl⟩
  · rw [if_neg hs]
    split <;> simp_all

/-- With a bus a leaf that was run is skipped from then on, and no other is;
    without one nothing changes. -/
theorem leaf_skipped_mark (env : RunEnv ι) (m : MatchMessage) (cb cb' : ι) (st : RunState ι) :
    leaf_skipped env m ((mark_iteration env cb st).callbacks cb') =
        (leaf_skipped env m (st.callbacks cb') || (env.bus.isSome && cb' = cb)) ∧
      ((mark_iteration env cb st).callbacks cb').callback = (st.callbacks cb').callback := by
  unfold mark_iteration leaf_skipped
  cases hb : env.bus with
  | none => simp
  | some k =>
    by_cases h : cb' = cb
    · simp [h]
    · simp [h]

/-- **A sequence of leaves invokes, of its callbacks, those that have a
    function and are not skipped**; with a bus each of them once. -/
theorem run_leaves_invoked (env : RunEnv ι) (m : MatchMessage) (cbs : List ι) (st : RunState ι) :
    ∃ new, (run_leaves env m cbs st).invoked = st.invoked ++ new ∧
      (∀ cb, cb ∈ new ↔ cb ∈ cbs ∧ (st.callbacks cb).callback ∧
        ¬ leaf_skipped env m (st.callbacks cb)) ∧ (env.bus.isSome → new.Nodup) := by
  induction cbs generalizing st with
  | nil => exact ⟨[], by simp, by simp, by simp⟩
  | cons cb cbs ih =>
    obtain ⟨new, hinv, hmem, hnd⟩ := ih (run_leaf env m cb st).2
    rcases run_leaf_cases env m cb st with ⟨hs, heq⟩ | ⟨hs, hcbs, hrun⟩
    · rw [heq] at hinv hmem
      refine ⟨new, by rw [run_leaves_cons, heq, hinv], fun cb' => ?_, hnd⟩
      rw [hmem, mem_cons]
      constructor
      · rintro ⟨h, hc, hn⟩
        exact ⟨.inr h, hc, hn⟩
      · rintro ⟨rfl | h, hc, hn⟩
        · exact absurd hs hn
        · exact ⟨h, hc, hn⟩
    · have hmem' : ∀ cb', cb' ∈ new ↔ cb' ∈ cbs ∧ (st.callbacks cb').callback ∧
          ¬ (leaf_skipped env m (st.callbacks cb') || (env.bus.isSome && cb' = cb)) := by
        intro cb'
        obtain ⟨h1, h2⟩ := leaf_skipped_mark env m cb cb' st
        rw [hmem, hcbs, h1, h2]
      refine ⟨(if (st.callbacks cb).callback then [cb] else []) ++ new, ?_, fun cb' => ?_, ?_⟩
      · rw [run_leaves_cons, hinv, hrun, append_assoc]
      · rw [mem_append, hmem']
        by_cases he : cb' = cb
        · subst he
          by_cases hc : (st.callbacks cb').callback <;> simp [hc, hs]
        · by_cases hc : (st.callbacks cb).callback <;> simp [he]
      · intro hb
        rw [nodup_append]
        refine ⟨by split <;> simp, hnd hb, ?_⟩
        rintro a ha b hb' rfl
        obtain rfl : a = cb := by
          split at ha <;> simp_all
        obtain ⟨-, -, h⟩ := (hmem' a).mp hb'
        simp [hb] at h

end run

/-! ## Section 5: The rules that are installed -/

/-- A match tree, and the rules added and not removed since. -/
structure MatchTree (ι : Type u) where
  root : Nodes ι
  installed : List (Rule ι)

/-- Adding and removing rules. -/
inductive MatchLabel (ι : Type u) where
  | add (components : List BusMatchComponent) (callback : ι)
  | remove (callback : ι)

section system
variable [DecidableEq ι]

/-- A match tree from its start on; a callback is added at most once before it
    is removed, each being part of a slot of its own. -/
def match_tree : System (MatchTree ι) (MatchLabel ι) where
  init := fun s => s.root = .nil ∧ s.installed = []
  step := fun s l s' =>
    match l with
    | .add components cb =>
        (∀ r ∈ s.installed, r.2 ≠ cb) ∧
        s' = ⟨bus_match_add cb components s.root, (components, cb) :: s.installed⟩
    | .remove cb =>
        s' = ⟨(bus_match_remove cb s.root).getD s.root, s.installed.filter (·.2 ≠ cb)⟩

/-- The components of a rule, up to the part of the values that counts. -/
def Rule.key (r : Rule ι) : Rule ι := (r.1.map BusMatchComponent.key, r.2)

/-- The invariant: the tree is well formed, and its rules are those installed. -/
structure MatchInv (s : MatchTree ι) : Prop where
  wf : s.root.wf
  rules : s.root.rules ~ s.installed.map Rule.key
  distinct : (s.installed.map Prod.snd).Nodup

variable {s : MatchTree ι}

theorem MatchInv.step {s' : MatchTree ι} {l : MatchLabel ι} (hi : MatchInv s)
    (h : match_tree.step s l s') : MatchInv s' := by
  match l with
  | .add components cb =>
    obtain ⟨hnew, rfl⟩ := h
    refine ⟨(bus_match_add_wf cb components hi.wf).1, ?_, ?_⟩
    · exact (bus_match_add_rules cb components s.root).trans (hi.rules.cons _)
    · rw [map_cons, nodup_cons]
      refine ⟨fun hmem => ?_, hi.distinct⟩
      obtain ⟨r, hr, he⟩ := mem_map.mp hmem
      exact hnew r hr he
  | .remove cb =>
    obtain rfl : s' = _ := h
    have hdist : ((s.installed.filter (·.2 ≠ cb)).map Prod.snd).Nodup :=
      hi.distinct.sublist (filter_sublist.map _)
    match hrem : bus_match_remove cb s.root with
    | none =>
      have hnone := bus_match_remove_none hrem
      have hall : s.installed.filter (·.2 ≠ cb) = s.installed := by
        rw [filter_eq_self]
        intro r hr
        have hne : r.2 ≠ cb := hnone r.key (hi.rules.mem_iff.mpr (mem_map_of_mem hr))
        simpa using hne
      rw [hall] at hdist ⊢
      exact ⟨hi.wf, hi.rules, hdist⟩
    | some root' =>
      refine ⟨bus_match_remove_wf hrem hi.wf, ?_, hdist⟩
      obtain ⟨p, hp⟩ := bus_match_remove_rules hrem
      have hperm : (p, cb) :: root'.rules ~ s.installed.map Rule.key := hp.symm.trans hi.rules
      -- the callback stands in the tree once, so no other rule is taken out
      have hnd : (((p, cb) :: root'.rules).map Prod.snd).Nodup := by
        rw [(hperm.map Prod.snd).nodup_iff, map_map]
        exact hi.distinct
      have hothers : ∀ r ∈ root'.rules, r.2 ≠ cb := by
        intro r hr he
        refine (nodup_cons.mp hnd).1 ?_
        show cb ∈ root'.rules.map Prod.snd
        rw [← he]
        exact mem_map_of_mem hr
      have hfilter : ((p, cb) :: root'.rules).filter (·.2 ≠ cb) = root'.rules := by
        rw [filter_cons_of_neg (by simp), filter_eq_self]
        intro r hr
        simpa using hothers r hr
      have hkeys : (s.installed.map Rule.key).filter (·.2 ≠ cb) =
          (s.installed.filter (·.2 ≠ cb)).map Rule.key := by
        rw [filter_map]
        rfl
      show root'.rules ~ (s.installed.filter (·.2 ≠ cb)).map Rule.key
      rw [← hkeys, ← hfilter]
      exact hperm.filter _

theorem MatchInv.of_reachable (hs : Reachable match_tree s) : MatchInv s := by
  refine Reachable.invariant (fun s h => ?_) (fun s l s' hi hst => hi.step hst) hs
  obtain ⟨hr, hin⟩ := h
  exact ⟨by rw [hr]; trivial, by rw [hr, hin]; exact .refl _, by rw [hin]; exact .nil⟩

/-- A rule matches the message: all of its components do. -/
def Rule.matches (r : Rule ι) (m : MatchMessage) : Prop := ∀ c ∈ r.1, c.test m

/-- **The match tree is the list of its rules**: after any sequence of
    additions and removals a run with quiet callbacks returns zero, having
    invoked exactly the callbacks of the installed rules that match, apart
    from those the code passes over on purpose; with a bus, each once. -/
theorem bus_match_run_exact {s : MatchTree ι} (hs : Reachable match_tree s) (env : RunEnv ι)
    (m : MatchMessage) (st : RunState ι) (hq : env.quiet)
    (hm : st.match_callbacks_modified = false) :
    ∃ st' new, bus_match_run env m s.root st = (.ok 0, st') ∧
      st'.invoked = st.invoked ++ new ∧
      (∀ cb, cb ∈ new ↔ (∃ r ∈ s.installed, r.2 = cb ∧ r.matches m) ∧
        (st.callbacks cb).callback ∧ ¬ leaf_skipped env m (st.callbacks cb)) ∧
      (env.bus.isSome → new.Nodup) := by
  have hi := MatchInv.of_reachable hs
  obtain ⟨new, hinv, hmem, hnd⟩ :=
    run_leaves_invoked env m (visited m s.root) st
  refine ⟨_, new, bus_match_run_visited hq hi.wf hm, hinv, fun cb => ?_, hnd⟩
  rw [hmem, mem_visited m cb hi.wf]
  refine and_congr_left fun _ => ?_
  constructor
  · rintro ⟨p, hp, ht⟩
    obtain ⟨r, hr, he⟩ := mem_map.mp (hi.rules.mem_iff.mp hp)
    obtain ⟨rfl, rfl⟩ := Prod.mk.inj he
    refine ⟨r, hr, rfl, fun c hc => ?_⟩
    have := ht c.key (mem_map_of_mem hc)
    rwa [test_key] at this
  · rintro ⟨r, hr, rfl, ht⟩
    refine ⟨r.1.map key, hi.rules.mem_iff.mpr (mem_map_of_mem hr), ?_⟩
    intro c hc
    obtain ⟨c', hc', rfl⟩ := mem_map.mp hc
    rw [test_key]
    exact ht c' hc'

end system

/-! ### Two trees -/

/-- A signal with two arguments. -/
def some_signal : MatchMessage where
  type := 4
  sender := some (ascii ":1.7")
  destination := none
  interface := some (ascii "org.example.I")
  member := some (ascii "M")
  path := some (ascii "/a/b")
  well_known_names := none
  args := [.str (ascii "x"), .strv [ascii "p", ascii "q", ascii "p"]]
  read_counter := 1

def type_signal : BusMatchComponent := ⟨.message_type, ⟨4, []⟩⟩
def member_is (s : String) : BusMatchComponent := ⟨.member, ⟨0, ascii s⟩⟩
def path_below (s : String) : BusMatchComponent := ⟨.path_namespace, ⟨0, ascii s⟩⟩
def arg1_has (s : String) : BusMatchComponent := ⟨.arg_has 1, ⟨0, ascii s⟩⟩

/-- A callback whose AddMatch() call is complete, or is not. -/
def a_callback (install_slot : Bool) : BusMatchCallback := ⟨true, install_slot, 0, 0⟩

/-- A bus in its first iteration, and callbacks that do nothing. -/
def quiet_env : RunEnv Nat := ⟨some 1, fun _ => ⟨0, false, false⟩⟩

theorem quiet_env_quiet : quiet_env.quiet := fun _ => ⟨rfl, rfl, rfl⟩

/-- A rule is added. -/
def with_rule (components : List BusMatchComponent) (cb : Nat) (s : MatchTree Nat) :
    MatchTree Nat :=
  ⟨bus_match_add cb components s.root, (components, cb) :: s.installed⟩

/-- Four rules that share nodes, the second of which is removed again. -/
def some_rules : MatchTree Nat :=
  let s := with_rule [type_signal, member_is "M"] 0 ⟨.nil, []⟩
  let s := with_rule [type_signal, member_is "M", path_below "/a"] 1 s
  let s := with_rule [type_signal, path_below "/a", arg1_has "p"] 2 s
  let s := with_rule [type_signal, member_is "N"] 3 s
  ⟨(bus_match_remove 1 s.root).getD s.root, s.installed.filter (·.2 ≠ 1)⟩

theorem reachable_some_rules : Reachable match_tree some_rules := by
  refine .step (a := .remove 1) (.step (a := .add _ 3) (.step (a := .add _ 2)
    (.step (a := .add _ 1) (.step (a := .add _ 0) (.init ⟨rfl, rfl⟩) ⟨?_, rfl⟩) ⟨?_, rfl⟩)
    ⟨?_, rfl⟩) ⟨?_, rfl⟩) rfl
  all_goals decide

theorem bus_match_run_exact_some_rules :
    ∃ st' new, bus_match_run quiet_env some_signal some_rules.root
        ⟨fun _ => a_callback false, false, []⟩ = (.ok 0, st') ∧
      st'.invoked = [] ++ new ∧
      (∀ cb, cb ∈ new ↔ (∃ r ∈ some_rules.installed, r.2 = cb ∧ r.matches some_signal) ∧
        (a_callback false).callback ∧
        ¬ leaf_skipped quiet_env some_signal (a_callback false)) ∧
      (quiet_env.bus.isSome → new.Nodup) :=
  bus_match_run_exact reachable_some_rules quiet_env some_signal
    ⟨fun _ => a_callback false, false, []⟩ quiet_env_quiet rfl

/-- A rule that matches is passed over while its AddMatch() call is not
    complete. -/
theorem bus_match_run_passes_over :
    ¬ ∀ (s : MatchTree Nat), Reachable match_tree s → ∀ (env : RunEnv Nat) (m : MatchMessage)
      (st : RunState Nat), env.quiet → st.match_callbacks_modified = false →
      ∃ st' new, bus_match_run env m s.root st = (.ok 0, st') ∧
        st'.invoked = st.invoked ++ new ∧
        ∀ cb, cb ∈ new ↔ ∃ r ∈ s.installed, r.2 = cb ∧ r.matches m := by
  intro hall
  have hs : Reachable match_tree (with_rule [] 0 ⟨.nil, []⟩) :=
    .step (a := .add [] 0) (.init ⟨rfl, rfl⟩) ⟨by simp, rfl⟩
  obtain ⟨st', new, hrun, hinv, hmem⟩ := hall _ hs quiet_env some_signal
    ⟨fun _ => a_callback true, false, []⟩ quiet_env_quiet rfl
  have hnone : (bus_match_run quiet_env some_signal
      (with_rule [] 0 (⟨.nil, []⟩ : MatchTree Nat)).root
      ⟨fun _ => a_callback true, false, []⟩).2.invoked = [] := rfl
  have hnil : new = [] := by
    rw [hrun] at hnone
    exact hinv.symm.trans hnone
  have hin : 0 ∈ new := (hmem 0).mpr
    ⟨([], 0), mem_cons_self, rfl, fun c hc => by cases hc⟩
  rw [hnil] at hin
  cases hin

end SdCompat.Match
