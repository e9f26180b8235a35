import SdCompat.SdJson.ObjectUpdate

/-! # The objects that result from an update (sd-json.c)

    `sd_json_variant_filter`, `sd_json_variant_set_field` and
    `sd_json_variant_merge_object`, on the values: which pairs are in the object
    then, and in which order. `sd_json_variant_append_array`, which works alike, is
    here, too.
-/

namespace SdCompat.Json

open Call List Outcome Nat Variant

variable {R : Type}

/-! ## Section 1: The values -/

namespace Variant

/-- The pairs of an object. -/
def fields : Variant R → List (List UInt8 × Variant R)
  | .object l => l
  | _ => []

/-- Without the pairs of these keys. -/
def without (keys : List (List UInt8)) : Variant R → Variant R
  | .object l => .object (l.filter fun m => !keys.contains m.1)
  | v => v

/-- The elements of an array. -/
def items : Variant R → List (Variant R)
  | .array l => l
  | _ => []

theorem by_key_fields (v : Variant R) (key : List UInt8) :
    v.by_key key = (v.fields.find? fun m => m.1 = key).map (·.2) := by
  cases v with
  | object l => rfl
  | _ => rfl

/-- What is found in the pairs of two objects. -/
theorem by_key_append (l l' : List (List UInt8 × Variant R)) (key : List UInt8) :
    (object (l ++ l')).by_key key = ((object l).by_key key).or ((object l').by_key key) := by
  unfold by_key
  dsimp only
  rw [find?_append]
  cases l.find? fun m => m.1 = key with
  | none => rfl
  | some m => rfl

/-- Where pairs are dropped by their keys, the others are still found. -/
theorem by_key_filter (l : List (List UInt8 × Variant R)) (stays : List UInt8 → Bool)
    (key : List UInt8) : (object (l.filter fun m => stays m.1)).by_key key =
      if stays key then (object l).by_key key else none := by
  unfold by_key
  dsimp only
  cases hkey : stays key with
  | true =>
    rw [find?_filter]
    congr 1
    refine find?_congr fun m _ => decide_eq_decide.mpr ?_
    refine ⟨fun h => of_decide_eq_true h.2, fun h => ⟨?_, decide_eq_true h⟩⟩
    rw [h, hkey]
  | false =>
    rw [find?_eq_none.mpr]
    · rfl
    · intro m hm hfound
      obtain rfl := of_decide_eq_true hfound
      exact absurd (mem_filter.mp hm).2 (by rw [hkey]; exact Bool.false_ne_true)

end Variant

namespace Kept

variable [Double R] [DoubleCast R]

/-! ## Section 2: Removing and setting fields -/

section fields
variable {s : Slot R} {v m value : Pointer R}

/-- A blank object has no pairs. -/
theorem Sound.blank_value (h : Sound v) (hblank : sd_json_variant_is_blank_object v = true) :
    v.value = .null ∨ v.value = .object [] := by
  have hcases : v = .null ∨ sd_json_variant_is_null v = true ∨
      (sd_json_variant_is_object v = true ∧ sd_json_variant_elements v = 0) := by
    unfold sd_json_variant_is_blank_object at hblank
    split at hblank
    · exact .inl rfl
    · right
      rwa [Bool.or_eq_true, Bool.and_eq_true, decide_eq_true_iff] at hblank
  rcases hcases with rfl | hnull | ⟨hobject, hzero⟩
  · exact .inl rfl
  · have hvalue := Pointer.value_of_type v
    rw [is_null_iff.mp hnull] at hvalue
    exact .inl hvalue
  · right
    rw [h.object_elements (is_object_iff.mp hobject), length_eq_zero_iff.mp hzero]
    rfl

/-- Any other object is its pairs. -/
theorem Sound.pairs (h : Sound v) (hobject : sd_json_variant_is_object v = true) :
    v.children = of_pairs (pairs_of v.children) ∧
    (∀ p ∈ pairs_of v.children, sd_json_variant_is_string p.1 = true) ∧
    sd_json_variant_elements v = 2 * (pairs_of v.children).length ∧
    v.value = .object ((pairs_of v.children).map Pointer.member) := by
  have htype := is_object_iff.mp hobject
  obtain ⟨heven, hstring⟩ := h.keyed_children htype
  have hpairs := (of_pairs_pairs_of heven).symm
  refine ⟨hpairs, hstring, ?_, ?_⟩
  · rw [← length_of_pairs, ← hpairs, Pointer.children, length_map]
    rfl
  · rw [h.object_value htype, Pointer.members_eq]

variable {ps : List (Pointer R × Pointer R)}

/-- The pairs that are kept, by their keys. -/
theorem kept_members (keys : List (List UInt8))
    (hstring : ∀ p ∈ ps, sd_json_variant_is_string p.1 = true) : (kept keys ps).map Pointer.member =
      (ps.map Pointer.member).filter fun m => !keys.contains m.1 := by
  rw [filter_map]
  congr 1
  refine filter_congr fun p hp => ?_
  obtain ⟨key, hkey⟩ := string_of_type (is_string_iff.mp (hstring p hp))
  unfold hit
  rw [Function.comp_apply, Pointer.member, hkey]
  rfl

theorem Sound.mem_pairs (h : Sound v) {p : Pointer R × Pointer R}
    (hp : p ∈ pairs_of v.children) : Sound p.1 ∧ Sound p.2 :=
  have hmem := mem_of_mem_pairs hp
  ⟨h.children _ hmem.1, h.children _ hmem.2⟩

theorem sound_of_pairs (h : ∀ p ∈ ps, Sound p.1 ∧ Sound p.2) : ∀ w ∈ of_pairs ps, Sound w := by
  intro w hw
  obtain ⟨p, hp, hw⟩ := mem_flatMap.mp hw
  rcases mem_pair.mp hw with rfl | rfl
  · exact (h p hp).1
  · exact (h p hp).2

/-- `sd_json_variant_filter`: the pairs with these keys are gone, and the others stay
    as they are, in order. -/
theorem filter_spec (hv : Sound s.v) (to_remove : List (List UInt8)) :
    Ensures (sd_json_variant_filter to_remove) s
      (fun r t => Sound t.v ∧ t.v.value = s.v.value.without to_remove ∧
        r + t.v.value.fields.length = s.v.value.fields.length) fun t => t.v = s.v := by
  refine ensures_get_bind ?_
  dsimp only
  split
  · next hblank =>
    rcases hv.blank_value hblank with hvalue | hvalue
    · exact ensures_pure ⟨hv, by rw [hvalue]; rfl, zero_add _⟩
    · exact ensures_pure ⟨hv, by rw [hvalue]; rfl, zero_add _⟩
  · next hnot =>
    refine ensures_check_bind rfl fun hobject => ?_
    obtain ⟨hpairs, hstring, hcount, hvalue⟩ := hv.pairs hobject
    have hwithout : s.v.value.without to_remove =
        .object ((kept to_remove (pairs_of s.v.children)).map Pointer.member) := by
      rw [hvalue, kept_members to_remove hstring]
      rfl
    split
    · next hnil =>
      subst hnil
      refine ensures_pure ⟨hv, ?_, zero_add _⟩
      rw [hvalue]
      exact congrArg object (filter_eq_self.mpr fun _ _ => rfl).symm
    · refine ensures_bind (R := fun r t => t.v = s.v ∧ Removed to_remove
          (sd_json_variant_elements s.v - 2) (pairs_of s.v.children) r.1 r.2) ?_ fun r t hr => ?_
      · exact ensures_on_heap (remove_keys_spec hpairs hstring (by omega) s.heap 0 (zero_le _)
          0 none ⟨rfl, fun _ => rfl, nofun⟩)
      · obtain ⟨n, array⟩ := r
        obtain ⟨ht, hremoved⟩ := hr
        have hlength := hremoved.count
        cases array with
        | none =>
          obtain rfl : n = 0 := hremoved.untouched rfl
          have hall : kept to_remove (pairs_of s.v.children) = pairs_of s.v.children :=
            filter_eq_self.mpr (length_filter_eq_length_iff.mp
              ((zero_add _).symm.trans hlength))
          refine ensures_pure ?_
          rw [ht, hwithout, hall, hvalue]
          exact ⟨hv, rfl, zero_add _⟩
        | some a =>
          obtain ⟨-, rfl⟩ := hremoved.filled a rfl
          have hsound : ∀ w ∈ of_pairs (kept to_remove (pairs_of s.v.children)), Sound w :=
            sound_of_pairs fun p hp => hv.mem_pairs (mem_of_mem_filter hp)
          refine ensures_mono (replaces_end n ht (makes_new_object _ hsound)) ?_ fun _ h => h
          rintro r u ⟨rfl, hsound, hu⟩
          rw [members_of_pairs] at hu
          refine ⟨hsound, hu.trans hwithout.symm, ?_⟩
          rw [hu, hvalue, fields, fields, length_map, length_map]
          exact hlength

/-- The array with the other fields. -/
theorem other_fields_spec (hv : Sound v) (field : List UInt8) (s : Heap) :
    Ensures (other_fields v field) s
      (fun a _ => a.elements.length + 2 ≤ a.size ∧ (∀ w ∈ a.elements, Sound w) ∧
        a.elements.length % 2 = 0 ∧
        Pointer.members a.elements = v.value.fields.filter fun m => m.1 ≠ field) fun _ => True := by
  unfold other_fields
  split
  · next hblank =>
    refine ensures_mono (ensures_new_scratch 2 s) ?_ fun _ h => h
    rintro a t rfl
    refine ⟨le_refl 2, nofun, rfl, ?_⟩
    rcases hv.blank_value hblank with hvalue | hvalue
    · rw [hvalue]
      rfl
    · rw [hvalue]
      rfl
  · refine ensures_check_bind trivial fun hobject => ?_
    obtain ⟨hpairs, hstring, hcount, hvalue⟩ := hv.pairs hobject
    have hothers : ((kept [field] (pairs_of v.children)).map Pointer.member) =
        v.value.fields.filter fun m => m.1 ≠ field := by
      rw [kept_members [field] hstring, hvalue]
      refine filter_congr fun m _ => ?_
      simp
    refine ensures_bind (remove_keys_spec hpairs hstring (by omega) s 0 (zero_le _) 0 none
      ⟨rfl, fun _ => rfl, nofun⟩) fun r t hremoved => ?_
    obtain ⟨n, array⟩ := r
    have hlength := hremoved.count
    cases array with
    | some a =>
      obtain ⟨hpos, rfl⟩ := hremoved.filled a rfl
      refine ensures_pure ⟨?_, ?_, ?_, ?_⟩
      · change _ ≤ sd_json_variant_elements v
        rw [length_of_pairs]
        omega
      · exact sound_of_pairs fun p hp => hv.mem_pairs (mem_of_mem_filter hp)
      · rw [length_of_pairs]
        omega
      · rw [members_of_pairs, hothers]
    | none =>
      -- no field has this name
      obtain rfl : n = 0 := hremoved.untouched rfl
      have hall : kept [field] (pairs_of v.children) = pairs_of v.children :=
        filter_eq_self.mpr (length_filter_eq_length_iff.mp
          ((zero_add _).symm.trans hlength))
      have hlen : v.children.length = sd_json_variant_elements v := length_map ..
      refine ensures_bind (ensures_new_scratch _ t) fun a t' ha => ?_
      subst ha
      have hput := put_all_ok (a := ⟨sd_json_variant_elements v + 2, []⟩) v.children (by
        change 0 + _ ≤ _ + 2
        omega)
      rw [hput]
      refine ⟨?_, hv.children, ?_, ?_⟩
      · change v.children.length + 2 ≤ sd_json_variant_elements v + 2
        omega
      · change v.children.length % 2 = 0
        omega
      · change Pointer.members v.children = _
        rw [Pointer.members_eq, ← hothers, hall]

/-- `sd_json_variant_set_field`: one pair with this key, behind all the others, which
    stay as they are. -/
theorem set_field_spec (hv : Sound s.v) (field : List UInt8) (hvalue : Sound value) :
    Ensures (sd_json_variant_set_field field value) s (fun _ t => Sound t.v ∧ t.v.value =
        .object ((s.v.value.fields.filter fun m => m.1 ≠ field) ++ [(field, value.value)]))
      fun t => t.v = s.v := by
  refine ensures_get_bind ?_
  refine ensures_bind (ensures_mono (ensures_on_heap (other_fields_spec hv field s.heap))
    (fun _ _ h => h) fun _ h => h) fun a t ha => ?_
  obtain ⟨ht, hspace, hsound, heven, hmembers⟩ := ha
  refine ensures_bind (ensures_makes ht (makes_new_string field)) fun p u hp => ?_
  obtain ⟨hu, hp, hfield⟩ := hp
  have hput := put_all_ok (a := a) [p, value] hspace
  rw [hput]
  have hall : ∀ w ∈ a.elements ++ [p, value], Sound w := by
    intro w hw
    rcases mem_append.mp hw with hw | hw
    · exact hsound w hw
    · rcases mem_pair.mp hw with rfl | rfl
      · exact hp
      · exact hvalue
  refine ensures_mono (replaces_end 1 hu (makes_new_object _ hall)) ?_ fun _ h => h
  rintro r u ⟨rfl, hsound, hu⟩
  refine ⟨hsound, hu.trans ?_⟩
  rw [Pointer.members_eq, pairs_of_append heven, map_append, ← Pointer.members_eq, hmembers]
  change object (_ ++ [((sd_json_variant_string p).getD [], value.value)]) = _
  rw [(Pointer.string_of_value hfield).2]
  rfl

/-- What is kept of the first object: the pairs whose keys the second one has not. -/
theorem keep_fields_spec (hm : Sound m) (l : List (Pointer R × Pointer R))
    (hstring : ∀ p ∈ l, sd_json_variant_is_string p.1 = true) (array : Scratch R)
    (hspace : array.elements.length + 2 * l.length ≤ array.size) :
    ∃ ps : List (Pointer R × Pointer R), ps ⊆ l ∧ ps.length ≤ l.length ∧
      ps.map Pointer.member = (l.map Pointer.member).filter (fun p => (m.value.by_key p.1).isNone) ∧
      keep_fields m l array = .ok ⟨array.size, array.elements ++ of_pairs ps⟩ := by
  induction l generalizing array with
  | nil => exact ⟨[], List.Subset.refl _, le_refl _, rfl, by rw [of_pairs]; simp [keep_fields]⟩
  | cons p l ih =>
    obtain ⟨key, hkey⟩ := string_of_type (is_string_iff.mp (hstring p (mem_cons_self ..)))
    obtain ⟨found, hfound, hvalue⟩ := by_key_value hm key
    rw [length_cons] at hspace
    have hrest : ∀ q ∈ l, sd_json_variant_is_string q.1 = true :=
      fun q hq => hstring q (mem_cons_of_mem _ hq)
    have hmember : Pointer.member p = (key, p.2.value) := by
      rw [Pointer.member, hkey]
      rfl
    rw [keep_fields, hstring p (mem_cons_self ..), hkey]
    dsimp only
    rw [hfound, ok_bind, map_cons, filter_cons, hmember]
    cases hby : m.value.by_key key with
    | none =>
      rw [hby] at hvalue
      obtain rfl : found = .null := hvalue
      have hput := put_all_ok (a := array) [p.1, p.2] (by
        change array.elements.length + 2 ≤ array.size
        omega)
      obtain ⟨ps, hsub, hlen, hmap, hkeep⟩ :=
        ih hrest ⟨array.size, array.elements ++ [p.1, p.2]⟩ (by
          change (array.elements ++ [p.1, p.2]).length + 2 * l.length ≤ array.size
          rw [length_append, length_cons, length_singleton]
          omega)
      refine ⟨p :: ps, cons_subset_cons p hsub, succ_le_succ hlen, ?_, ?_⟩
      · rw [map_cons, hmap, hmember]
        rfl
      · rw [hput, ok_bind, hkeep, append_assoc]
        rfl
    | some x =>
      rw [hby] at hvalue
      obtain ⟨ps, hsub, hlen, hmap, hkeep⟩ := ih hrest array (by omega)
      refine ⟨ps, fun q hq => mem_cons_of_mem _ (hsub hq), le_succ_of_le hlen, hmap, ?_⟩
      rw [← hkeep]
      cases found with
      | null => exact absurd rfl hvalue.1
      | _ => rfl

/-- `sd_json_variant_merge_object`: the pairs of the first object whose keys the second
    one has not, and then those of the second one. -/
theorem merge_object_spec (hv : Sound s.v) (hm : Sound m) :
    Ensures (sd_json_variant_merge_object m) s (fun _ t => Sound t.v ∧ t.v.value.fields =
        (s.v.value.fields.filter fun p => (m.value.by_key p.1).isNone) ++ m.value.fields)
      fun t => t.v = s.v := by
  have hd := hm.dereference
  have hdvalue := Pointer.value_dereference m
  rw [← hdvalue]
  refine ensures_get_bind ?_
  generalize json_variant_dereference m = m at hd hdvalue ⊢
  have hnone : m.value.fields = [] → ∀ key, (m.value.by_key key).isNone = true := by
    intro hempty key
    rw [by_key_fields, hempty]
    rfl
  refine ensures_check_bind rfl fun hcheck => ensures_check_bind rfl fun hcheck' => ?_
  split
  · next hblank =>
    have hempty : m.value.fields = [] := by
      rcases hd.blank_value hblank with hvalue | hvalue
      · rw [hvalue]
        rfl
      · rw [hvalue]
        rfl
    refine ensures_pure ⟨hv, ?_⟩
    rw [hempty, append_nil]
    exact (filter_eq_self.mpr fun p _ => hnone hempty p.1).symm
  · next hm_blank =>
    split
    · next hblank =>
      have hempty : s.v.value.fields = [] := by
        rcases hv.blank_value hblank with hvalue | hvalue
        · rw [hvalue]
          rfl
        · rw [hvalue]
          rfl
      refine ensures_modify_bind (ensures_pure ⟨hd, ?_⟩)
      rw [hempty]
      rfl
    · next hv_blank =>
      rw [Bool.eq_false_iff.mpr hv_blank] at hcheck
      rw [Bool.eq_false_iff.mpr hm_blank] at hcheck'
      obtain ⟨hpairs, hstring, hcount, hvalue⟩ := hv.pairs hcheck
      obtain ⟨hmpairs, -, hmcount, hmvalue⟩ := hd.pairs hcheck'
      have hmlen : m.children.length = sd_json_variant_elements m := length_map ..
      refine ensures_bind (ensures_on_heap (ensures_new_scratch
        (sd_json_variant_elements s.v + sd_json_variant_elements m) s.heap)) fun a t ha => ?_
      obtain ⟨ht, rfl⟩ := ha
      obtain ⟨ps, hsub, hlen, hmap, hkeep⟩ := keep_fields_spec hd (pairs_of s.v.children) hstring
        ⟨sd_json_variant_elements s.v + sd_json_variant_elements m, []⟩ (by
          change 0 + _ ≤ _ + _
          omega)
      have hput := put_all_ok
        (a := ⟨sd_json_variant_elements s.v + sd_json_variant_elements m, [] ++ of_pairs ps⟩)
        m.children (by
          change (of_pairs ps).length + _ ≤ _ + _
          rw [length_of_pairs]
          omega)
      rw [hkeep]
      refine ensures_lift_bind nofun nofun fun a ha => ?_
      obtain rfl := ok.inj ha
      rw [hput]
      refine ensures_lift_bind nofun nofun fun a ha => ?_
      obtain rfl := ok.inj ha
      have hall : ∀ w ∈ of_pairs ps ++ m.children, Sound w := by
        intro w hw
        rcases mem_append.mp hw with hw | hw
        · exact sound_of_pairs (fun p hp => hv.mem_pairs (hsub hp)) w hw
        · exact hd.children w hw
      refine ensures_bind (ensures_makes ht (makes_new_object _ hall)) fun w t' hw => ?_
      obtain ⟨ht', hsound, hnew⟩ := hw
      refine ensures_bind (ensures_mark s.v w ht') fun _ u hu => ?_
      refine ensures_bind (ensures_mark m w hu) fun _ u' _ => ⟨hsound, ?_⟩
      have hmembers : Pointer.members (of_pairs ps ++ m.children) =
          ps.map Pointer.member ++ (pairs_of m.children).map Pointer.member := by
        conv_lhs => rw [hmpairs]
        rw [← of_pairs_append, members_of_pairs, map_append]
      have hresult : w.value = .object (Pointer.members (of_pairs ps ++ m.children)) := hnew
      rw [hresult, hmembers, hmap, hvalue, hmvalue]
      rfl

end fields

/-! ## Section 3: Appending, sorting, normalizing -/

section others
variable {s : Slot R} {v w element : Pointer R}

variable {a : List (Pointer R)}

/-- Nothing is lost by sorting, nor added. -/
theorem mem_qsort_pairs (q : Qsort R) (hw : w ∈ qsort_pairs q a) : w ∈ a := by
  rcases mem_append.mp hw with hw | hw
  · obtain ⟨p, hp, hw⟩ := mem_flatMap.mp hw
    have hmem := mem_of_mem_pairs ((q.perm _).mem_iff.mp hp)
    rcases mem_pair.mp hw with rfl | rfl
    · exact hmem.1
    · exact hmem.2
  · exact mem_of_mem_drop hw

/-- An array of no elements, or what is taken for one. -/
theorem Sound.blank_items (h : Sound v) (hblank : is_null_or_unset v = true ∨ sd_json_variant_elements v = 0) :
    v.value.items = [] := by
  have hempty : v.elements = [] → v.value.items = [] := by
    intro hnil
    by_cases htype : sd_json_variant_type v = some .array
    · rw [h.array_elements htype, hnil]
      rfl
    · cases hvalue : v.value with
      | array l => exact absurd ((container_of_value v).1 l hvalue) htype
      | _ => rfl
  rcases hblank with hnull | hzero
  · unfold is_null_or_unset at hnull
    split at hnull
    · rfl
    · have hvalue := Pointer.value_of_type v
      rw [is_null_iff.mp hnull] at hvalue
      rw [hvalue]
      rfl
  · exact hempty (length_eq_zero_iff.mp hzero)

/-- An array that is no reference has elements of its own. -/
theorem Sound.own_array (h : Sound v) (htype : sd_json_variant_type v = some .array)
    (hno : is_reference v = false) (hpos : sd_json_variant_elements v ≠ 0) :
    ∃ k l, v = .array k l ∧ NewArray.Sound ⟨l, k.depth, k.normalized⟩ := by
  cases h with
  | null => cases htype
  | magic m => exact absurd rfl hpos
  | const_string s => cases htype
  | scalar hdepth => exact absurd rfl hpos
  | array hl hregular hdepth hmax hne hnormal =>
    exact ⟨_, _, rfl, hl, hregular, hdepth, hmax, hnormal⟩
  | object => cases htype
  | reference hv hsome hflag => cases hno

/-- `sd_json_variant_append_array`, whether the array is changed in its place or
    copied. -/
theorem append_array_spec (hv : Sound s.v) (he : Sound element) {sole : Bool}
    (hsole : sole = true → is_reference s.v = false) :
    Ensures (sd_json_variant_append_array sole element) s
      (fun _ t => Sound t.v ∧ t.v.value = .array (s.v.value.items ++ [element.value]))
      fun t => t.v = s.v := by
  refine ensures_get_bind ?_
  dsimp only
  split
  · exact ensures_fail rfl
  · split
    · exact ensures_fail rfl
    · next hother =>
      split
      · next hblank =>
        rw [Bool.or_eq_true, decide_eq_true_iff] at hblank
        refine ensures_mono (replaces_end 0 rfl (makes_new_array [element] ?_)) ?_ fun _ h => h
        · intro w hw
          obtain rfl := mem_singleton.mp hw
          exact he
        · rintro r t ⟨-, hsound, hvalue⟩
          rw [hv.blank_items hblank]
          exact ⟨hsound, hvalue⟩
      · next hnot =>
        rw [Bool.or_eq_true, not_or] at hnot
        have harray : sd_json_variant_is_array s.v = true := by
          rw [Bool.eq_false_iff.mpr hnot.1] at hother
          cases h : sd_json_variant_is_array s.v with
          | true => rfl
          | false =>
            rw [h] at hother
            exact absurd rfl hother
        have htype := is_array_iff.mp harray
        split
        · next hs =>
          -- in its place
          refine ensures_bind (ensures_mono (ensures_on_heap (ensures_alloc s.heap))
            (fun _ _ h => h.1) fun _ h => h) fun _ t ht => ?_
          have hpos : sd_json_variant_elements s.v ≠ 0 := fun hzero =>
            hnot.2 (decide_eq_true hzero)
          obtain ⟨k, l, hk, hl⟩ := hv.own_array htype (hsole hs) hpos
          rw [hk]
          dsimp only
          obtain ⟨hdeep, hflat⟩ := put_element_sound k.address.1 hl he
          by_cases hd : DEPTH_MAX ≤ json_variant_depth element
          · rw [hdeep hd]
            exact ht.trans hk
          · obtain ⟨w, hw, hsound, helements⟩ := hflat hd
            rw [hw]
            have hne : w.elements ≠ [] := by
              rw [helements]
              exact append_ne_nil_of_right_ne_nil _ (cons_ne_nil _ _)
            refine ⟨hsound.array hne k.address k.located k.sorted, ?_⟩
            rw [Pointer.value, Pointer.value, Pointer.values_eq, Pointer.values_eq, helements,
              map_append, map_singleton, Pointer.value_set]
            rfl
        · have hall : ∀ w ∈ s.v.children ++ [element], Sound w := by
            intro w hw
            rcases mem_append.mp hw with hw | hw
            · exact hv.children w hw
            · obtain rfl := mem_singleton.mp hw
              exact he
          refine ensures_bind (ensures_mono (ensures_on_heap (ensures_alloc s.heap))
            (fun _ _ h => h.1) fun _ h => h) fun _ t ht => ?_
          refine ensures_mono (replaces_end 0 ht (makes_new_array _ hall)) ?_ fun _ h => h
          rintro r u ⟨-, hsound, hvalue⟩
          refine ⟨hsound, hvalue.trans ?_⟩
          rw [hv.array_value htype, map_append]
          rfl

variable (q : Qsort R)

/-- The pairs of an object that is sorted. -/
theorem members_qsort_pairs (heven : a.length % 2 = 0) :
    (Pointer.members (qsort_pairs q a)).Perm (Pointer.members a) := by
  have hdrop : a.drop (2 * (a.length / 2)) = [] := drop_eq_nil_of_le (by omega)
  rw [qsort_pairs, hdrop, append_nil, members_of_pairs, Pointer.members_eq]
  exact (q.perm _).map _

/-- `sd_json_variant_sort`: the pairs stay the same. -/
theorem sort_spec (hv : Sound s.v) : Ensures (sd_json_variant_sort q) s
      (fun _ t => Sound t.v ∧ t.v.value.fields.Perm s.v.value.fields) fun t => t.v = s.v := by
  refine ensures_get_bind ?_
  dsimp only
  split
  · exact ensures_pure ⟨hv, List.Perm.refl _⟩
  · refine ensures_check_bind rfl fun hobject => ?_
    have htype := is_object_iff.mp hobject
    have hall : ∀ w ∈ qsort_pairs q s.v.children, Sound w :=
      fun w hw => hv.children w (mem_qsort_pairs q hw)
    refine ensures_bind (ensures_mono (ensures_on_heap (ensures_alloc s.heap))
      (fun _ _ h => h.1) fun _ h => h) fun _ t ht => ?_
    refine ensures_bind (ensures_makes ht (makes_new_object _ hall)) fun w t' hw => ?_
    obtain ⟨ht', hsound, hvalue⟩ := hw
    refine ensures_bind (ensures_mark s.v w ht') fun _ u hu => ?_
    refine ensures_check_bind hu fun _ => ⟨hsound, ?_⟩
    rw [hvalue, hv.object_value htype]
    exact members_qsort_pairs q (hv.keyed_children htype).1

/-- The loop over the elements. -/
theorem normalize_elements_spec (l : List (Pointer R))
    (hl : ∀ w ∈ l, ∀ s, Ensures (normalize q w) s (fun r _ => Sound r.1) fun _ => True) (s : Heap) :
    Ensures (normalize_elements q l) s (fun a _ => ∀ w ∈ a, Sound w) fun _ => True := by
  induction l generalizing s with
  | nil =>
    rw [normalize_elements]
    exact ensures_pure fun w hw => by cases hw
  | cons v l ih =>
    rw [normalize_elements]
    refine ensures_bind (hl v (mem_cons_self ..) s) fun r s' hr => ?_
    refine ensures_bind (ih (fun w hw => hl w (mem_cons_of_mem _ hw)) s') fun a s'' ha => ?_
    refine ensures_pure fun w hw => ?_
    rcases mem_cons.mp hw with rfl | hw
    · exact hr
    · exact ha w hw

/-- What is normalized, or refused, is sound at every level. -/
theorem normalize_sound (v : Pointer R) (hv : Sound v) (s : Heap) :
    Ensures (normalize q v) s (fun r _ => Sound r.1) fun _ => True := by
  induction v using Pointer.children_ind generalizing s with
  | h v ih =>
    rw [normalize]
    split
    · exact ensures_pure hv
    · refine ensures_check_bind trivial fun _ => ?_
      refine ensures_bind (ensures_alloc s) fun _ s1 _ => ?_
      refine ensures_bind (normalize_elements_spec q v.children
        (fun w hw t => ih w hw (hv.children w hw) t) s1) fun a s2 ha => ?_
      have hall : ∀ w ∈ qsort_pairs q a, Sound w := fun w hw => ha w (mem_qsort_pairs q hw)
      have hend : ∀ (n : Pointer R) s3, Sound n → Ensures (do
          json_variant_propagate_sensitive v n
          check n.flag_normalized Errno.ENOTUNIQ
          pure (n, 1)) s3 (fun r _ => Sound r.1) fun _ => True := by
        intro n s3 hn
        refine ensures_bind (ensures_propagate v n s3) fun _ s4 _ => ?_
        exact ensures_check_bind trivial fun _ => hn
      split
      · exact ensures_bind (makes_new_object _ hall s2) fun n s3 hn => hend n s3 hn.1
      · exact ensures_bind (makes_new_array _ hall s2) fun n s3 hn => hend n s3 hn.1

/-- `sd_json_variant_normalize` -/
theorem normalize_spec (hv : Sound s.v) :
    Ensures (sd_json_variant_normalize q) s (fun _ t => Sound t.v) fun t => t.v = s.v := by
  refine ensures_get_bind ?_
  refine ensures_bind (ensures_mono (ensures_on_heap (normalize_sound q s.v hv s.heap))
    (fun _ _ h => h.2) fun _ h => h) fun w t hw => ?_
  exact hw

end others

end Kept

end SdCompat.Json
