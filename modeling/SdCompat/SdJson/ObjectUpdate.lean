import SdCompat.SdJson.Lookup

/-! # Replacing the variant of a variable (sd-json.c)

    What the functions that take a `sd_json_variant**` leave in the variable: the
    new variant if they succeed, the old one if not. They collect what they keep
    in an array, whose size they compute before.
-/

namespace SdCompat.Json.Kept

open List Pointer Call

variable {R : Type} [Double R] [DoubleCast R]

/-! ## Section 1: The variable -/

section slot
variable {s : Slot R} {v w : Pointer R}

omit [Double R] [DoubleCast R] in
/-- What a call on the heap gives, with the variable as it was. -/
theorem ensures_on_heap {α : Type} {x : Call Heap α} {P : α → Prop}
    (h : Ensures x s.heap (fun a _ => P a) fun _ => True) :
    Ensures (on_heap x) s (fun a t => t.v = s.v ∧ P a) fun t => t.v = s.v := by
  unfold Ensures on_heap at *
  match hr : x s.heap with
  | (.ok a, t) =>
    rw [hr] at h
    exact ⟨rfl, h⟩
  | (.err e, t) => rfl
  | (.abort, t) =>
    rw [hr] at h
    exact h

variable {value : Variant R} {v₀ : Pointer R} {x : Call Heap (Pointer R)}

/-- A new variant, that is not in the variable yet. -/
theorem ensures_makes (hs : s.v = v₀) (hx : Makes x value) :
    Ensures (on_heap x) s (fun w t => t.v = v₀ ∧ Sound w ∧ w.value = value) fun t => t.v = v₀ := by
  subst hs
  exact ensures_on_heap (hx s.heap)

theorem ensures_mark (src dst : Pointer R) (hs : s.v = v₀) :
    Ensures (on_heap (json_variant_propagate_sensitive src dst)) s (fun _ t => t.v = v₀)
      fun t => t.v = v₀ := by
  subst hs
  refine ensures_mono (ensures_on_heap (ensures_propagate src dst s.heap)) ?_ fun _ h => h
  intro _ t ht
  exact ht.1

/-- The end of a function: the new variant is made, marked and stored. -/
theorem replaces_end (r : Nat) (hs : s.v = v₀) (hx : Makes x value) :
    Ensures (do
      let w ← on_heap x
      on_heap (json_variant_propagate_sensitive v w)
      json_variant_unref_and_replace w
      pure r) s (fun r' t => r' = r ∧ Sound t.v ∧ t.v.value = value) fun t => t.v = v₀ := by
  refine ensures_bind (ensures_makes hs hx) fun w t hw => ?_
  obtain ⟨ht, hsound, hvalue⟩ := hw
  exact ensures_bind (ensures_mark v w ht) fun _ _ _ => ⟨rfl, hsound, hvalue⟩

/-- The value of an array, by what is in it. -/
theorem Sound.array_elements (h : Sound v) (htype : sd_json_variant_type v = some .array) :
    v.value = .array (v.elements.map Pointer.value) := by
  induction h with
  | null => cases htype
  | magic m =>
    cases m with
    | empty_array => rfl
    | _ => cases htype
  | const_string s => cases htype
  | scalar hdepth =>
    rename_i k x
    cases x with
    | _ => cases htype
  | array =>
    rw [value, values_eq]
    rfl
  | object => cases htype
  | reference hv hsome hflag ih =>
    exact ih htype

theorem Sound.array_value (h : Sound v) (htype : sd_json_variant_type v = some .array) :
    v.value = .array (v.children.map Pointer.value) := by
  rw [h.array_elements htype, Pointer.children, map_map]
  refine congrArg Variant.array (map_congr_left fun w _ => ?_)
  exact (value_conservative w).symm

theorem Sound.object_elements (h : Sound v) (htype : sd_json_variant_type v = some .object) :
    v.value = .object (members v.elements) := by
  induction h with
  | null => cases htype
  | magic m =>
    cases m with
    | empty_object => rfl
    | _ => cases htype
  | const_string s => cases htype
  | scalar hdepth =>
    rename_i k x
    cases x with
    | _ => cases htype
  | array => cases htype
  | object =>
    rfl
  | reference hv hsome hflag ih =>
    exact ih htype

theorem string_conservative (v : Pointer R) :
    sd_json_variant_string (json_variant_conservative_formalize v) = sd_json_variant_string v := by
  rcases conservative_cases v with hc | hc
  · rw [hc]
  · rw [hc, string_formalize]

/-- The members, as `sd_json_variant_by_index` gives them. -/
theorem members_children (l : List (Pointer R)) :
    members (l.map json_variant_conservative_formalize) = members l := by
  induction l using pairs_of.induct with
  | case1 k v l ih =>
    change (_, _) :: members (l.map _) = (_, _) :: members l
    rw [ih, string_conservative, value_conservative]
  | case2 l hshort =>
    rcases l with _ | ⟨k, _ | ⟨v, l⟩⟩
    · rfl
    · rfl
    · exact absurd rfl (hshort k v l)

theorem Sound.object_value (h : Sound v) (htype : sd_json_variant_type v = some .object) :
    v.value = .object (members v.children) := by
  rw [h.object_elements htype, Pointer.children, members_children]

/-- The children of an object are keys and values. -/
theorem Sound.keyed_children (h : Sound v) (htype : sd_json_variant_type v = some .object) :
    Keyed v.children := by
  obtain ⟨heven, hstring⟩ := h.keyed htype
  refine ⟨by rwa [Pointer.children, length_map], ?_⟩
  have hall : ∀ l : List (Pointer R), (∀ p ∈ pairs_of l, sd_json_variant_is_string p.1 = true) →
      ∀ p ∈ pairs_of (l.map json_variant_conservative_formalize),
        sd_json_variant_is_string p.1 = true := by
    intro l hl
    induction l using pairs_of.induct with
    | case1 k v l ih =>
      intro p hp
      rcases mem_cons.mp hp with rfl | hp
      · rw [is_string_iff, type_conservative, ← is_string_iff]
        exact hl (k, v) (mem_cons_self ..)
      · exact ih (fun q hq => hl q (mem_cons_of_mem _ hq)) p hp
    | case2 l hshort =>
      intro p hp
      rcases l with _ | ⟨k, _ | ⟨v, l⟩⟩
      · cases hp
      · cases hp
      · exact absurd rfl (hshort k v l)
  exact hall _ hstring

omit [DoubleCast R] in
/-- Only arrays have items, and only objects have members. -/
theorem container_of_value (v : Pointer R) :
    (∀ l, v.value = .array l → sd_json_variant_type v = some .array) ∧
    (∀ l, v.value = .object l → sd_json_variant_type v = some .object) := by
  induction v using json_variant_dereference.induct with
  | case1 h v ih =>
    exact ih
  | case2 v hno =>
    cases v with
    | null => exact ⟨fun _ h => (by cases h), fun _ h => (by cases h)⟩
    | magic m =>
      cases m with
      | empty_array => exact ⟨fun _ _ => rfl, fun _ h => (by cases h)⟩
      | empty_object => exact ⟨fun _ h => (by cases h), fun _ _ => rfl⟩
      | _ => exact ⟨fun _ h => (by cases h), fun _ h => (by cases h)⟩
    | const_string s => exact ⟨fun _ h => (by cases h), fun _ h => (by cases h)⟩
    | scalar k x =>
      cases x with
      | _ => exact ⟨fun _ h => (by cases h), fun _ h => (by cases h)⟩
    | array k l =>
      exact ⟨fun _ _ => rfl, fun _ h => (by cases h)⟩
    | object k l =>
      exact ⟨fun _ h => (by cases h), fun _ _ => rfl⟩
    | reference k u => exact absurd rfl (hno _ _)

/-- Nothing is found in what is no object. -/
theorem by_key_full_other (htype : sd_json_variant_type v ≠ some .object) (key : List UInt8) :
    sd_json_variant_by_key_full v key = .ok .not_found := by
  cases v with
  | null => rfl
  | magic m => rfl
  | const_string s => rfl
  | scalar k x => rfl
  | array k l => rfl
  | object k l => exact absurd rfl htype
  | reference k u => exact if_neg htype

/-- What is found, by its value. -/
theorem by_key_object_value {v : Pointer R} (hv : Sound v)
    (htype : sd_json_variant_type v = some .object) (key : List UInt8) :
    ∃ p, sd_json_variant_by_key v key = .ok p ∧
      match (members v.elements).find? fun m => m.1 = key with
      | some m => p ≠ .null ∧ p.value = m.2
      | none => p = .null := by
  obtain ⟨r, hr, hvalue, -⟩ := by_key_full_eq hv htype key
  have hkeyed := (hv.keyed htype).2
  refine ⟨r.value, ?_, ?_⟩
  · unfold sd_json_variant_by_key
    rw [hr]
    rfl
  · have hfind : (members v.elements).find? (fun m => m.1 = key) =
        ((pairs_of v.elements).find? (has_key key)).map member := by
      rw [members_eq, find?_map]
      congr 1
      refine find?_congr fun p hp => ?_
      rw [Function.comp_apply, Bool.eq_iff_iff, decide_eq_true_iff, has_key_iff (hkeyed p hp)]
      rfl
    rw [hfind, hvalue]
    unfold first_with_key
    cases hfound : (pairs_of v.elements).find? (has_key key) with
    | none => rfl
    | some p =>
      have hmem := (mem_of_mem_pairs (mem_of_find?_eq_some hfound)).2
      refine ⟨(hv.elements _ hmem).conservative_ne_null ?_, value_conservative p.2⟩
      rintro hnull
      have hregular := hv.regular _ hmem
      rw [hnull] at hregular
      cases hregular

/-- `sd_json_variant_by_key`: `NULL` where no pair has the key. -/
theorem by_key_value (hv : Sound v) (key : List UInt8) :
    ∃ p, sd_json_variant_by_key v key = .ok p ∧
      match v.value.by_key key with
      | some x => p ≠ .null ∧ p.value = x
      | none => p = .null := by
  by_cases htype : sd_json_variant_type v = some .object
  · obtain ⟨p, hp, hvalue⟩ := by_key_object_value hv htype key
    refine ⟨p, hp, ?_⟩
    rw [hv.object_elements htype]
    unfold Variant.by_key
    dsimp only
    cases hfind : (members v.elements).find? fun m => m.1 = key with
    | none =>
      rw [hfind] at hvalue
      exact hvalue
    | some m =>
      rw [hfind] at hvalue
      exact hvalue
  · refine ⟨.null, ?_, ?_⟩
    · unfold sd_json_variant_by_key
      rw [by_key_full_other htype]
      rfl
    · have hnone : v.value.by_key key = none := by
        cases hvalue : v.value with
        | object l => exact absurd ((container_of_value v).2 l hvalue) htype
        | _ => rfl
      rw [hnone]

end slot

/-! ## Section 2: The loop that removes keys -/

section remove
variable {v : Pointer R} {ps : List (Pointer R × Pointer R)} {size i j n : Nat}
  {keys : List (List UInt8)} {array : Option (Scratch R)}

omit [Double R] [DoubleCast R] in
theorem of_pairs_append (l l' : List (Pointer R × Pointer R)) :
    of_pairs (l ++ l') = of_pairs l ++ of_pairs l' := flatMap_append ..

omit [Double R] [DoubleCast R] in
theorem length_of_pairs (l : List (Pointer R × Pointer R)) : (of_pairs l).length = 2 * l.length := by
  induction l with
  | nil => rfl
  | cons p l ih =>
    change (of_pairs l).length + 1 + 1 = _
    rw [length_cons]
    omega

omit [Double R] [DoubleCast R] in
theorem members_of_pairs (l : List (Pointer R × Pointer R)) [Double R] :
    members (of_pairs l) = l.map member := by
  induction l with
  | nil => rfl
  | cons p l ih =>
    change (_, _) :: members (of_pairs l) = _
    rw [ih]
    rfl

omit [Double R] [DoubleCast R] in
/-- The elements of one pair. -/
theorem of_pairs_at {p : Pointer R × Pointer R} (h : ps[j]? = some p) :
    (of_pairs ps)[2 * j]? = some p.1 ∧ (of_pairs ps)[2 * j + 1]? = some p.2 ∧
      (of_pairs ps).take (2 * j) = of_pairs (ps.take j) := by
  obtain ⟨hj, rfl⟩ := List.getElem?_eq_some_iff.mp h
  have hsplit : of_pairs ps = of_pairs (ps.take j) ++ ps[j].1 :: ps[j].2 :: of_pairs (ps.drop (j + 1)) := by
    conv_lhs => rw [← take_append_drop j ps, ← getElem_cons_drop hj]
    rw [of_pairs_append]
    rfl
  have hlen : (of_pairs (ps.take j)).length = 2 * j := by
    rw [length_of_pairs, length_take, Nat.min_eq_left (Nat.le_of_lt hj)]
  rw [hsplit]
  refine ⟨?_, ?_, ?_⟩
  · rw [List.getElem?_append_right (Nat.le_of_eq hlen), hlen, Nat.sub_self]
    rfl
  · rw [List.getElem?_append_right (by omega), hlen, Nat.add_sub_cancel_left]
    rfl
  · rw [take_append_of_le_length (Nat.le_of_eq hlen.symm), take_of_length_le (Nat.le_of_eq hlen)]

omit [Double R] [DoubleCast R] in
/-- There is space. -/
theorem put_all_ok (l : List (Pointer R)) {a : Scratch R} (h : a.elements.length + l.length ≤ a.size) :
    a.put_all l = .ok ⟨a.size, a.elements ++ l⟩ := by
  induction l generalizing a with
  | nil =>
    rw [append_nil]
    rfl
  | cons p l ih =>
    rw [length_cons] at h
    have hput : a.put p = .ok ⟨a.size, a.elements ++ [p]⟩ := if_pos (by omega)
    unfold Scratch.put_all
    rw [hput, Outcome.ok_bind, ih, append_assoc]
    · rfl
    · change (a.elements ++ [p]).length + l.length ≤ a.size
      rw [length_append, length_singleton]
      omega

/-- A key that is to be removed. -/
def hit (keys : List (List UInt8)) (p : Pointer R × Pointer R) : Bool :=
  (sd_json_variant_string p.1).any keys.contains

/-- The pairs that are kept. -/
def kept (keys : List (List UInt8)) (ps : List (Pointer R × Pointer R)) : List (Pointer R × Pointer R) :=
  ps.filter fun p => !hit keys p

/-- What the loop has done with the pairs before `j`. -/
structure Removed (keys : List (List UInt8)) (size : Nat) (ps : List (Pointer R × Pointer R))
    (n : Nat) (array : Option (Scratch R)) : Prop where
  count : n + (kept keys ps).length = ps.length
  untouched : array = none → n = 0
  filled : ∀ a, array = some a → 0 < n ∧ a = ⟨size, of_pairs (kept keys ps)⟩

omit [Double R] [DoubleCast R] in
theorem kept_concat (ps : List (Pointer R × Pointer R)) (p : Pointer R × Pointer R) :
    kept keys (ps ++ [p]) = kept keys ps ++ if hit keys p then [] else [p] := by
  unfold kept
  cases hhit : hit keys p with
  | true => simp [hhit]
  | false => simp [hhit]

omit [Double R] [DoubleCast R] in
theorem ensures_new_scratch (size : Nat) (s : Heap) :
    Ensures (new_scratch size : Call Heap (Scratch R)) s (fun a _ => a = ⟨size, []⟩)
      fun _ => True := by
  refine ensures_bind (ensures_alloc s) fun _ s' _ => ?_
  exact ensures_pure rfl

/-- The loop, from the pair `j` on. -/
theorem remove_keys_spec (hps : v.children = of_pairs ps)
    (hstring : ∀ p ∈ ps, sd_json_variant_is_string p.1 = true)
    (hsize : 2 * ps.length ≤ size + 2) (s : Heap)
    (j : Nat) (hj : j ≤ ps.length) (n : Nat) (array : Option (Scratch R))
    (hdone : Removed keys size (ps.take j) n array) :
    Ensures (remove_keys v size keys (2 * j) n array) s
      (fun r _ => Removed keys size ps r.1 r.2) fun _ => True := by
  have helements : sd_json_variant_elements v = 2 * ps.length := by
    rw [← length_of_pairs, ← hps, children, length_map]
    rfl
  generalize hk : ps.length - j = k
  induction k generalizing j n array s with
  | zero =>
    have heq : j = ps.length := by omega
    subst heq
    rw [take_length] at hdone
    rw [remove_keys, if_neg (by omega)]
    exact ensures_pure hdone
  | succ k ih =>
    have hlt : j < ps.length := by omega
    have hget := List.getElem?_eq_getElem hlt
    generalize hp : ps[j] = p at hget
    have hmem : p ∈ ps := mem_of_getElem? hget
    obtain ⟨hkey, hvalue, htake⟩ := of_pairs_at hget
    have hkey' : sd_json_variant_by_index v (2 * j) = p.1 := by
      unfold sd_json_variant_by_index
      rw [hps, getD_eq_getElem?_getD, hkey]
      rfl
    have hvalue' : sd_json_variant_by_index v (2 * j + 1) = p.2 := by
      unfold sd_json_variant_by_index
      rw [hps, getD_eq_getElem?_getD, hvalue]
      rfl
    have hsplit : ps.take (j + 1) = ps.take j ++ [p] := by
      rw [take_add_one, hget]
      rfl
    have hlen : (ps.take j).length = j := by
      rw [length_take, Nat.min_eq_left hj]
    have hcount := hdone.count
    rw [hlen] at hcount
    have hnext : ∀ n' array', Removed keys size (ps.take (j + 1)) n' array' → ∀ s',
        Ensures (remove_keys v size keys (2 * j + 2) n' array') s'
          (fun r _ => Removed keys size ps r.1 r.2) fun _ => True :=
      fun n' array' h s' => ih s' (j + 1) hlt n' array' h (by omega)
    rw [remove_keys, if_pos (by omega)]
    rw [hkey', hvalue']
    refine ensures_check_true_bind (hstring p hmem) ?_
    by_cases hhit : hit keys p = true
    · have hcond : (sd_json_variant_string p.1).any keys.contains = true := hhit
      rw [if_pos hcond]
      -- the array has been allocated, or is now
      have hfirst : Ensures (first_hit v size (2 * j) array) s
          (fun a _ => a = ⟨size, of_pairs (kept keys (ps.take j))⟩) fun _ => True := by
        cases array with
        | some a => exact ensures_pure (hdone.filled a rfl).2
        | none =>
          obtain rfl := hdone.untouched rfl
          have hall : kept keys (ps.take j) = ps.take j := by
            refine filter_eq_self.mpr (length_filter_eq_length_iff.mp ?_)
            rw [hlen]
            exact (Nat.zero_add _).symm.trans hcount
          refine ensures_bind (ensures_new_scratch size s) fun a s' ha => ?_
          subst ha
          have hput := put_all_ok (a := ⟨size, []⟩) (v.children.take (2 * j)) (by
            rw [hps, htake, length_of_pairs, hlen]
            change 0 + 2 * j ≤ size
            omega)
          rw [hput, hps, htake, hall]
          exact rfl
      refine ensures_bind hfirst fun a s' ha => hnext _ _ ?_ s'
      refine ⟨?_, fun h => (by cases h), fun a' ha' => ?_⟩
      · rw [hsplit, kept_concat, if_pos hhit, append_nil, length_append, hlen,
          length_singleton]
        omega
      · cases ha'
        rw [hsplit, kept_concat, if_pos hhit, append_nil]
        exact ⟨Nat.succ_pos n, ha⟩
    · have hcond : ¬ (sd_json_variant_string p.1).any keys.contains = true := hhit
      rw [if_neg hcond]
      have hmore : n + (kept keys (ps.take (j + 1))).length = (ps.take (j + 1)).length := by
        rw [hsplit, kept_concat, if_neg hhit, length_append, length_append, hlen,
          length_singleton]
        omega
      cases array with
      | none =>
        refine hnext _ _ ⟨hmore, fun _ => hdone.untouched rfl, fun a ha => (by cases ha)⟩ s
      | some a =>
        obtain ⟨hpos, ha⟩ := hdone.filled a rfl
        subst ha
        have hput := put_all_ok (a := ⟨size, of_pairs (kept keys (ps.take j))⟩) [p.1, p.2] (by
          change (of_pairs (kept keys (ps.take j))).length + 2 ≤ size
          rw [length_of_pairs]
          omega)
        dsimp only
        rw [hput]
        refine hnext _ _ ⟨hmore, fun h => (by cases h), fun a ha => ⟨hpos, ?_⟩⟩ s
        cases ha
        rw [hsplit, kept_concat, if_neg hhit, of_pairs_append]
        rfl

end remove

end SdCompat.Json.Kept
