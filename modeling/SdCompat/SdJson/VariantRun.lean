import SdCompat.SdJson.ObjectAlgebra

/-! # Sequences of calls on JSON variants (sd-json.c)

    A caller makes variants, puts them into others, looks for keys, and updates
    what it has, in any order. Whatever it does, the metadata of its variants is
    right: their depths, and the flags that say whether they are sorted and
    normalized.
-/

open Transition

namespace SdCompat.Json.Kept

open Call Outcome Variant

variable {R : Type} [Double R] [DoubleCast R]

/-! ## Section 1: Model -/

/-- The calls, on variables. The parser sets the source of variants that nothing else
    refers to. -/
inductive Operation (R : Type) where
  | constant (x : Nat) (c : Constant R)
  | new_array (x : Nat) (ys : List Nat)
  | new_object (x : Nat) (ys : List Nat)
  | ref (x y : Nat)
  | unref (x : Nat)
  | by_index (x y index : Nat)
  | by_key (x y : Nat) (key : List UInt8)
  | set_source (x : Nat) (located same : Bool)
  | append_array (sole : Bool) (x y : Nat)
  | set_field (x : Nat) (field : List UInt8) (y : Nat)
  | merge_object (x y : Nat)
  | filter (x : Nat) (to_remove : List (List UInt8))
  | sort (x : Nat)
  | normalize (x : Nat)

/-- A variable is set to what a constructor makes, unless it fails. -/
def assign (x : Nat) (make : Call Heap (Pointer R)) : Call (Variables R) Nat := fun s =>
  match make s.heap with
  | (.ok v, heap) => (.ok 0, ⟨heap, Function.update s.vars x v⟩)
  | (.err e, heap) => (.err e, { s with heap := heap })
  | (.abort, heap) => (.abort, { s with heap := heap })

/-- A variable, with all else. -/
def Variables.slot (s : Variables R) (x : Nat) : Slot R := ⟨s.heap, s.vars x⟩

/-- A function is called on a variable. -/
def update (x : Nat) (f : Call (Slot R) Nat) : Call (Variables R) Nat := fun s =>
  match f (s.slot x) with
  | (r, t) => (r, ⟨t.heap, Function.update s.vars x t.v⟩)

/-- What a call does. Where the variant is a reference it is embedded, or one to a
    magic variant, and `json_variant_n_ref` is not asked, or gives 0. -/
def Operation.call (q : Qsort R) (s : Variables R) : Operation R → Call (Variables R) Nat
  | constant x c => assign x c.new
  | new_array x ys => assign x (sd_json_variant_new_array (ys.map s.vars))
  | new_object x ys => assign x (sd_json_variant_new_object (ys.map s.vars))
  | ref x y => assign x (pure (s.vars y))
  | unref x => assign x (pure .null)
  | by_index x y index => assign x (pure (sd_json_variant_by_index (s.vars y) index))
  | by_key x y key => assign x (lift (sd_json_variant_by_key (s.vars y) key))
  | set_source x located same =>
    assign x (json_variant_set_source located same true (s.vars x))
  | append_array sole x y =>
    update x (sd_json_variant_append_array (sole && !is_reference (s.vars x)) (s.vars y))
  | set_field x field y => update x (sd_json_variant_set_field field (s.vars y))
  | merge_object x y => update x (sd_json_variant_merge_object (s.vars y))
  | filter x to_remove => update x (sd_json_variant_filter to_remove)
  | sort x => update x (sd_json_variant_sort q)
  | normalize x => update x (sd_json_variant_normalize q)

/-- A call that returns, whether it succeeds or not. -/
def variants_step (q : Qsort R) (s : Variables R) (o : Operation R) (s' : Variables R) : Prop :=
  (o.call q s s).1 ≠ .abort ∧ (o.call q s s).2 = s'

/-- At first no variable is set. -/
def variants (q : Qsort R) : System (Variables R) (Operation R) where
  init s := ∀ x, s.vars x = .null
  step := variants_step q

/-! ## Section 2: What holds in every state -/

section invariant
variable {q : Qsort R} {s : Variables R} {v w : Pointer R}

/-- All the variants are sound. -/
def Variables.Sound (s : Variables R) : Prop := ∀ x, Kept.Sound (s.vars x)

theorem Variables.Sound.update {s : Variables R} (h : s.Sound) (hv : Kept.Sound v) (heap : Heap)
    (x : Nat) : Variables.Sound ⟨heap, Function.update s.vars x v⟩ := by
  intro y
  change Kept.Sound (Function.update s.vars x v y)
  by_cases hy : y = x
  · rw [hy, Function.update_self]
    exact hv
  · rw [Function.update_of_ne hy]
    exact h y

theorem assign_sound (h : s.Sound) (x : Nat) {make : Call Heap (Pointer R)}
    (hmake : Ensures make s.heap (fun v _ => Kept.Sound v) fun _ => True) :
    Ensures (assign x make) s (fun _ t => t.Sound) fun t => t.Sound := by
  unfold Ensures assign at *
  match hr : make s.heap with
  | (.ok v, heap) =>
    rw [hr] at hmake
    exact h.update hmake heap x
  | (.err e, heap) => exact h
  | (.abort, heap) =>
    rw [hr] at hmake
    exact hmake

theorem update_sound (h : s.Sound) (x : Nat) {f : Call (Slot R) Nat}
    (hf : Ensures f (s.slot x) (fun _ t => Kept.Sound t.v) fun t => t.v = s.vars x) :
    Ensures (update x f) s (fun _ t => t.Sound) fun t => t.Sound := by
  unfold Ensures Kept.update at *
  match hr : f (s.slot x) with
  | (.ok r, t) =>
    rw [hr] at hf
    exact h.update hf t.heap x
  | (.err e, t) =>
    rw [hr] at hf
    exact h.update (hf ▸ h x) t.heap x
  | (.abort, t) =>
    rw [hr] at hf
    exact hf

theorem Variables.Sound.map (h : s.Sound) (ys : List Nat) : ∀ v ∈ ys.map s.vars, Kept.Sound v := by
  intro v hv
  obtain ⟨y, -, rfl⟩ := List.mem_map.mp hv
  exact h y

/-- What is found is sound, too. -/
theorem by_key_sound (hv : Kept.Sound v) (key : List UInt8) :
    ∃ p, sd_json_variant_by_key v key = .ok p ∧ Kept.Sound p := by
  by_cases htype : sd_json_variant_type v = some .object
  · obtain ⟨r, hr, hvalue, -⟩ := by_key_full_eq hv htype key
    refine ⟨r.value, ?_, ?_⟩
    · unfold sd_json_variant_by_key
      rw [hr]
      rfl
    · rw [hvalue]
      unfold first_with_key
      cases hfound : (pairs_of v.elements).find? (has_key key) with
      | none => exact .null
      | some p => exact (hv.elements _ (mem_of_mem_pairs (List.mem_of_find?_eq_some hfound)).2).conservative
  · refine ⟨.null, ?_, .null⟩
    unfold sd_json_variant_by_key
    rw [by_key_full_other htype]
    rfl

/-- No call aborts, and all variants stay sound. -/
theorem Operation.call_sound (h : s.Sound) (o : Operation R) :
    Ensures (o.call q s) s (fun _ t => t.Sound) fun t => t.Sound := by
  have hmakes : ∀ x (make : Call Heap (Pointer R)) value, Makes make value →
      Ensures (assign x make) s (fun _ t => t.Sound) fun t => t.Sound :=
    fun x make value hm => assign_sound h x
      (ensures_mono (hm s.heap) (fun _ _ hv => hv.1) fun _ he => he)
  cases o with
  | constant x c =>
    obtain ⟨value, hc⟩ := makes_constant c
    exact hmakes x _ value hc
  | new_array x ys => exact hmakes x _ _ (makes_new_array _ (h.map ys))
  | new_object x ys => exact hmakes x _ _ (makes_new_object _ (h.map ys))
  | ref x y => exact assign_sound h x (ensures_pure (h y))
  | unref x => exact assign_sound h x (ensures_pure .null)
  | by_index x y index => exact assign_sound h x (ensures_pure ((h y).by_index index))
  | by_key x y key =>
    obtain ⟨p, hp, hsound⟩ := by_key_sound (h y) key
    refine assign_sound h x ?_
    rw [hp]
    exact hsound
  | set_source x located same => exact hmakes x _ _ (makes_set_source (h x) located same true)
  | append_array sole x y =>
    refine update_sound h x (ensures_mono (append_array_spec (h x) (h y) fun hs => ?_)
      (fun _ _ ht => ht.1) fun _ ht => ht)
    rw [Bool.and_eq_true, Bool.not_eq_true'] at hs
    exact hs.2
  | set_field x field y =>
    exact update_sound h x (ensures_mono (set_field_spec (h x) field (h y))
      (fun _ _ ht => ht.1) fun _ ht => ht)
  | merge_object x y =>
    exact update_sound h x (ensures_mono (merge_object_spec (h x) (h y))
      (fun _ _ ht => ht.1) fun _ ht => ht)
  | filter x to_remove =>
    exact update_sound h x (ensures_mono (filter_spec (h x) to_remove)
      (fun _ _ ht => ht.1) fun _ ht => ht)
  | sort x =>
    exact update_sound h x (ensures_mono (sort_spec q (h x)) (fun _ _ ht => ht.1)
      fun _ ht => ht)
  | normalize x => exact update_sound h x (normalize_spec q (h x))

theorem variants_sound (h : Reachable (variants q) s) : s.Sound := by
  refine Reachable.invariant ?_ ?_ h
  · intro s hinit x
    rw [hinit x]
    exact .null
  · rintro s o s' hs ⟨-, rfl⟩
    exact (Operation.call_sound hs o).state fun _ _ ht => ht

/-- No call aborts. -/
theorem variants_never_abort (h : Reachable (variants q) s) (o : Operation R) :
    (o.call q s s).1 ≠ .abort :=
  (Operation.call_sound (variants_sound h) o).not_abort

/-- One call after another. -/
def Variables.calls (q : Qsort R) (s : Variables R) (l : List (Operation R)) : Variables R :=
  l.foldl (fun s o => (o.call q s s).2) s

theorem reachable_calls (h : Reachable (variants q) s) (l : List (Operation R)) :
    Reachable (variants q) (s.calls q l) := by
  induction l generalizing s with
  | nil => exact h
  | cons o l ih => exact ih (h.step ⟨variants_never_abort h o, rfl⟩)

end invariant

/-- At first, with as much memory as is asked for. -/
def nothing : Variables Float := ⟨⟨0, fun _ => true, fun _ => false, fun _ => false, fun _ => false⟩, fun _ => .null⟩

theorem nothing_reachable : Reachable (variants Qsort.merge) nothing := .init fun _ => rfl

/-! ## Section 3: The metadata -/

section metadata
variable {q : Qsort R} {s : Variables R} {v w : Pointer R}

/-- A variant, or what is in it, at any depth. -/
inductive Within (w : Pointer R) : Pointer R → Prop
  | self : Within w w
  | array {h : Header} {l : List (Pointer R)} {u : Pointer R} (hu : u ∈ l) (hw : Within w u) :
      Within w (.array h l)
  | object {h : Header} {l : List (Pointer R)} {u : Pointer R} (hu : u ∈ l) (hw : Within w u) :
      Within w (.object h l)
  | reference {h : Header} {u : Pointer R} (hw : Within w u) : Within w (.reference h u)

theorem Sound.within (h : Sound v) (hw : Within w v) : Sound w := by
  induction hw with
  | self => exact h
  | array hu hw ih =>
    cases h with
    | array hl => exact ih (hl _ hu)
  | object hu hw ih =>
    cases h with
    | object hl => exact ih (hl _ hu)
  | reference hw ih =>
    cases h with
    | reference hv => exact ih hv

/-- **Metadata**: after any sequence of calls, the depth that is kept of an array or an
    object is one more than the largest depth of what is in it, the flag `sorted` of an
    object says whether its keys are strictly increasing, and what is reported to be
    normalized is. A reference keeps none of these itself. -/
theorem variant_metadata (h : Reachable (variants q) s) (x : Nat) (hw : Within w (s.vars x)) :
    (∀ k l, w = .array k l → k.depth = levels l ∧ k.depth ≤ DEPTH_MAX) ∧
    (∀ k l, w = .object k l → k.depth = levels l ∧ k.depth ≤ DEPTH_MAX ∧
      (k.sorted = true ↔ Increasing l)) ∧
    (sd_json_variant_is_normalized w = true → Normal w) := by
  have hsound := (variants_sound h x).within hw
  refine ⟨?_, ?_, hsound.normal⟩
  · rintro k l rfl
    cases hsound with
    | array hl hregular hdepth hmax => exact ⟨hdepth, hmax⟩
  · rintro k l rfl
    cases hsound with
    | object hl hregular hkeyed hdepth hmax hpos hsorted => exact ⟨hdepth, hmax, hsorted⟩

/-- An object in an array. -/
def nested : Variables Float :=
  nothing.calls .merge [.constant 0 (.const_string [97]), .constant 1 (.integer 7),
    .new_object 2 [0, 1], .new_array 3 [2]]

theorem variant_metadata_nested : ∃ v u k l, nested.vars 3 = v ∧ Within u v ∧ u = .object k l ∧
    k.depth = levels l ∧ k.depth ≤ DEPTH_MAX ∧ (k.sorted = true ↔ Increasing l) := by
  have hw : Within _ (nested.vars 3) := .array (List.mem_singleton.mpr rfl) (.reference .self)
  exact ⟨_, _, _, _, rfl, hw, rfl,
    (variant_metadata (reachable_calls nothing_reachable _) 3 hw).2.1 _ _ rfl⟩

end metadata

/-! ## Section 4: Looking for a key -/

section lookup
variable {q : Qsort R} {s : Variables R} {v w : Pointer R}

/-- The value and the key of the first pair with this key have been given, or `NULL`
    and `NULL`. -/
def FirstGiven (v : Pointer R) (key : List UInt8) : Prop :=
  ∃ r, sd_json_variant_by_key_full v key = .ok r ∧
    r.value = (first_with_key (pairs_of v.elements) key).value ∧
    r.ret_key = (first_with_key (pairs_of v.elements) key).ret_key

/-- **Object lookup**: the value that is returned is always right, whether the object
    is searched by bisection, linearly or through a reference. The key is given exactly
    if the variant is not a reference itself. -/
theorem by_key_full_first (h : Reachable (variants q) s) (x : Nat)
    (htype : sd_json_variant_type (s.vars x) = some .object) (key : List UInt8) :
    (∃ r, sd_json_variant_by_key_full (s.vars x) key = .ok r ∧
      r.value = (first_with_key (pairs_of (s.vars x).elements) key).value) ∧
    (FirstGiven (s.vars x) key ↔ is_reference (s.vars x) = false) := by
  obtain ⟨r, hr, hvalue, hkey⟩ := by_key_full_eq (variants_sound h x) htype key
  refine ⟨⟨r, hr, hvalue⟩, ?_⟩
  constructor
  · rintro ⟨r', hr', -, hkey'⟩
    obtain rfl := ok.inj (hr.symm.trans hr')
    cases href : is_reference (s.vars x) with
    | false => rfl
    | true =>
      -- nothing has been written to `*ret_key`
      rw [href, if_pos rfl, hkey'] at hkey
      unfold first_with_key at hkey
      cases hfound : (pairs_of (s.vars x).elements).find? (has_key key) with
      | none =>
        rw [hfound] at hkey
        cases hkey
      | some p =>
        rw [hfound] at hkey
        cases hkey
  · intro href
    rw [href, if_neg Bool.false_ne_true] at hkey
    exact ⟨r, hr, hvalue, hkey⟩

/-- An object of one pair, and the same object as it is taken out of an array that has
    been parsed. -/
def taken_out : Variables Float :=
  nothing.calls .merge [.constant 0 (.const_string [97]), .constant 1 (.integer 7),
    .new_object 2 [0, 1], .set_source 2 true false, .new_array 3 [2], .by_index 4 3 0]

theorem by_key_full_first_taken_out :
    (∃ r, sd_json_variant_by_key_full (taken_out.vars 2) [97] = .ok r ∧
      r.value = (first_with_key (pairs_of (taken_out.vars 2).elements) [97]).value) ∧
    (FirstGiven (taken_out.vars 2) [97] ↔ is_reference (taken_out.vars 2) = false) :=
  by_key_full_first (reachable_calls nothing_reachable _) 2 rfl [97]

/-- The value is found through the reference, but the key is not given. -/
theorem by_key_full_reference : ¬ ∀ s : Variables Float, Reachable (variants .merge) s →
    ∀ x, sd_json_variant_type (s.vars x) = some .object → ∀ key, FirstGiven (s.vars x) key := by
  intro h
  obtain ⟨r, hr, -, hkey⟩ := h taken_out (reachable_calls nothing_reachable _) 4 rfl [97]
  have hsound : taken_out.Sound := variants_sound (reachable_calls nothing_reachable _)
  obtain ⟨r', hr', -, hkey'⟩ := by_key_full_eq (hsound 4) rfl [97]
  obtain rfl := ok.inj (hr.symm.trans hr')
  have hnone : r.ret_key = none := hkey'
  rw [hkey] at hnone
  cases hnone

end lookup

/-! ## Section 5: Updates of objects -/

section updates
variable {q : Qsort R} {s : Variables R} {v w : Pointer R}

/-- The value that `sd_json_variant_by_key` finds, if any. -/
def lookup (v : Pointer R) (key : List UInt8) : Outcome (Option (Variant R)) := do
  let p ← sd_json_variant_by_key v key
  match p with
  | .null => .ok none
  | p => .ok (some p.value)

theorem Sound.lookup (hv : Sound v) (key : List UInt8) :
    lookup v key = .ok (v.value.by_key key) := by
  obtain ⟨p, hp, hvalue⟩ := by_key_value hv key
  unfold Kept.lookup
  rw [hp, ok_bind]
  cases hfound : v.value.by_key key with
  | none =>
    rw [hfound] at hvalue
    subst hvalue
    rfl
  | some x =>
    rw [hfound] at hvalue
    obtain ⟨hne, rfl⟩ := hvalue
    split
    · exact absurd rfl hne
    · rfl

/-- Two objects with a key in common. -/
def two_objects : Variables Float :=
  nothing.calls .merge [.constant 0 (.const_string [97]), .constant 1 (.integer 7),
    .constant 2 (.const_string [98]), .new_object 3 [0, 1, 2, 1, 0, 2], .new_object 4 [0, 2]]

end updates

end SdCompat.Json.Kept
