import SdCompat.SdJson.Metadata
import Mathlib.Data.List.Find

/-! # Looking for a key (sd-json.c)

    A sorted object is searched by bisection, any other one from the front, and a
    reference to an object by what it refers to. All of them find the first pair
    with the key.
-/

namespace SdCompat.Json.Kept

open List Nat

variable {R : Type} [Double R] [DoubleCast R]

/-! ## Section 1: Elements and pairs -/

section pairs
variable {v : Pointer R} {l : List (Pointer R)}

omit [Double R] [DoubleCast R] in
theorem of_pairs_pairs_of (h : l.length % 2 = 0) : of_pairs (pairs_of l) = l := by
  induction l using pairs_of.induct with
  | case1 k v l ih =>
    have hl : l.length % 2 = 0 := by
      rw [length_cons, length_cons] at h
      omega
    change k :: v :: of_pairs (pairs_of l) = _
    rw [ih hl]
  | case2 l hshort =>
    rcases l with _ | ⟨k, _ | ⟨v, l⟩⟩
    · rfl
    · cases h
    · exact absurd rfl (hshort k v l)

omit [Double R] [DoubleCast R] in
theorem length_pairs_of (l : List (Pointer R)) : (pairs_of l).length = l.length / 2 := by
  induction l using pairs_of.induct with
  | case1 k v l ih =>
    rw [pairs_of, length_cons, length_cons, length_cons]
    omega
  | case2 l hshort =>
    rcases l with _ | ⟨k, _ | ⟨v, l⟩⟩
    · simp [pairs_of]
    · simp [pairs_of]
    · exact absurd rfl (hshort k v l)

omit [Double R] [DoubleCast R] in
theorem mem_of_mem_pairs {p : Pointer R × Pointer R} (h : p ∈ pairs_of l) : p.1 ∈ l ∧ p.2 ∈ l := by
  induction l using pairs_of.induct with
  | case1 k v l ih =>
    rw [pairs_of, mem_cons] at h
    rcases h with rfl | h
    · exact ⟨by simp, by simp⟩
    · exact ⟨by simp [(ih h).1], by simp [(ih h).2]⟩
  | case2 l hshort =>
    rcases l with _ | ⟨k, _ | ⟨v, l⟩⟩
    · cases h
    · cases h
    · exact absurd rfl (hshort k v l)

theorem Sound.elements (h : Sound v) : ∀ w ∈ v.elements, Sound w := by
  induction h with
  | array hl => exact hl
  | object hl => exact hl
  | reference hv hsome hflag ih => exact ih
  | _ => exact nofun

theorem Sound.regular (h : Sound v) : ∀ w ∈ v.elements, json_variant_is_regular w = true := by
  induction h with
  | array hl hregular => exact hregular
  | object hl hregular => exact hregular
  | reference hv hsome hflag ih => exact ih
  | _ => exact nofun

/-- What `sd_json_variant_by_index` gives is sound. -/
theorem Sound.children (h : Sound v) : ∀ w ∈ v.children, Sound w := by
  intro w hw
  obtain ⟨u, hu, rfl⟩ := mem_map.mp hw
  exact (h.elements u hu).conservative

theorem Sound.by_index (h : Sound v) (i : Nat) : Sound (sd_json_variant_by_index v i) := by
  unfold sd_json_variant_by_index
  rw [getD_eq_getElem?_getD]
  cases hi : v.children[i]? with
  | none => exact .null
  | some w => exact h.children w (mem_of_getElem? hi)

/-- The elements of an object are keys and values. -/
theorem Sound.keyed (h : Sound v) (htype : sd_json_variant_type v = some .object) :
    Keyed v.elements := by
  induction h with
  | null => cases htype
  | magic m =>
    cases m with
    | empty_object => exact ⟨rfl, nofun⟩
    | _ => cases htype
  | const_string s => cases htype
  | scalar hdepth =>
    rename_i k x
    cases x with
    | _ => cases htype
  | array => cases htype
  | object hl hregular hkeyed => exact hkeyed
  | reference hv hsome hflag ih => exact ih htype

end pairs

/-! ## Section 2: The searches -/

section search
variable {l : List (Pointer R × Pointer R)} {key : List UInt8}

/-- A pair with this key. -/
def has_key (key : List UInt8) (p : Pointer R × Pointer R) : Bool :=
  sd_json_variant_is_string p.1 && sd_json_variant_string p.1 == some key

theorem has_key_iff {p : Pointer R × Pointer R} (h : sd_json_variant_is_string p.1 = true) :
    has_key key p = true ↔ key_of p = key := by
  obtain ⟨s, hs⟩ := string_of_type (is_string_iff.mp h)
  unfold has_key key_of
  rw [h, hs]
  simp

/-- What the first pair with the key gives. -/
def first_with_key (l : List (Pointer R × Pointer R)) (key : List UInt8) : ByKey R :=
  match l.find? (has_key key) with
  | some p => .found p
  | none => .not_found

theorem strcmp_total {x y : List UInt8} (hne : x ≠ y) (h : ¬ strcmp_lt x y = true) :
    strcmp_lt y x = true := by
  unfold strcmp_lt at *
  rw [decide_eq_true_iff] at *
  rcases List.le_iff_lt_or_eq.mp (List.not_lt.mp h) with hlt | heq
  · exact hlt
  · exact absurd heq.symm hne

theorem strcmp_irrefl (x : List UInt8) : ¬ strcmp_lt x x = true := by
  unfold strcmp_lt
  rw [decide_eq_true_iff]
  exact List.lt_irrefl x

/-- Bisection finds the first pair with the key if the keys are strictly
    increasing. What is before `a` and what is from `b` on have other keys. -/
theorem by_key_bisect_eq (hkeys : (l.map key_of).Pairwise fun x y => strcmp_lt x y = true)
    (hstring : ∀ p ∈ l, sd_json_variant_is_string p.1 = true) (a b : Nat) (hb : b ≤ l.length)
    (hbefore : ∀ (i : Nat) p, l[i]? = some p → i < a → strcmp_lt (key_of p) key = true)
    (hbehind : ∀ (i : Nat) p, l[i]? = some p → b ≤ i → strcmp_lt key (key_of p) = true) :
    by_key_bisect l key a b = .ok (first_with_key l key) := by
  have hlt : ∀ (i j : Nat) p p', l[i]? = some p → l[j]? = some p' → i < j →
      strcmp_lt (key_of p) (key_of p') = true := by
    intro i j p p' hp hp' hij
    obtain ⟨hi, rfl⟩ := List.getElem?_eq_some_iff.mp hp
    obtain ⟨hj, rfl⟩ := List.getElem?_eq_some_iff.mp hp'
    have h := pairwise_iff_getElem.mp hkeys i j (by rwa [length_map])
      (by rwa [length_map]) hij
    rwa [getElem_map, getElem_map] at h
  generalize hn : b - a = n
  induction n using Nat.strongRecOn generalizing a b with
  | ind n ih =>
    rw [by_key_bisect]
    split
    · next hab =>
      have hmid : (a + b) / 2 < l.length := by omega
      rw [getElem?_eq_getElem hmid]
      generalize hp : l[(a + b) / 2] = p
      have hget : l[(a + b) / 2]? = some p := by rw [getElem?_eq_getElem hmid, hp]
      have hpstring := hstring p (mem_of_getElem? hget)
      obtain ⟨f, hf⟩ := string_of_type (is_string_iff.mp hpstring)
      have hkey : key_of p = f := by
        unfold key_of
        rw [hf]
        rfl
      dsimp only
      rw [Pointer.string_dereference, hf]
      dsimp only
      split
      · next heq =>
        -- no pair before this one has the key
        have hfind : l.find? (has_key key) = some p := by
          rw [find?_eq_some_iff_getElem]
          refine ⟨(has_key_iff hpstring).mpr (hkey.trans heq.symm), _, hmid, hp, ?_⟩
          intro i hi
          have hil : i < l.length := hi.trans hmid
          have hget' := getElem?_eq_getElem hil
          have hless := hlt i _ _ _ hget' hget hi
          rw [Bool.not_eq_true', ← Bool.not_eq_true,
            has_key_iff (hstring _ (mem_of_getElem? hget'))]
          intro hsame
          rw [hsame, hkey, heq] at hless
          exact strcmp_irrefl f hless
        unfold first_with_key
        rw [hfind]
      · next hne =>
        split
        · next hless =>
          refine ih _ ?_ a _ ?_ hbefore ?_ rfl
          · omega
          · omega
          · intro i p' hp' hi
            rcases lt_or_eq_of_le hi with hi | rfl
            · exact strcmp_lt_trans hless (hkey ▸ hlt _ i _ _ hget hp' hi)
            · obtain rfl := Option.some.inj (hget.symm.trans hp')
              rwa [hkey]
        · next hnot =>
          have hmore := strcmp_total hne hnot
          refine ih _ ?_ _ b hb ?_ hbehind rfl
          · omega
          · intro i p' hp' hi
            rcases lt_or_eq_of_le (le_of_lt_succ hi) with hi | rfl
            · exact strcmp_lt_trans (hkey ▸ hlt i _ _ _ hp' hget hi) hmore
            · obtain rfl := Option.some.inj (hget.symm.trans hp')
              rwa [hkey]
    · next hab =>
      -- nothing is left
      have hnone : l.find? (has_key key) = none := by
        rw [find?_eq_none]
        intro p hp
        obtain ⟨i, hget⟩ := getElem?_of_mem hp
        rw [has_key_iff (hstring p hp)]
        intro hsame
        by_cases hi : i < a
        · have h := hbefore i p hget hi
          rw [hsame] at h
          exact strcmp_irrefl key h
        · have h := hbehind i p hget (by omega)
          rw [hsame] at h
          exact strcmp_irrefl key h
      unfold first_with_key
      rw [hnone]

/-- Both searches find the same. -/
theorem by_key_object {h : Header} {l : List (Pointer R)} (hv : Sound (.object h l))
    (key : List UInt8) :
    sd_json_variant_by_key_full (.object h l) key = .ok (first_with_key (pairs_of l) key) := by
  cases hv with
  | object hl hregular hkeyed hdepth hmax hpos hsorted hnormal =>
    unfold sd_json_variant_by_key_full
    split
    · next hs =>
      rw [← length_pairs_of]
      refine by_key_bisect_eq (hsorted.mp hs) hkeyed.2 0 _ (le_refl _) ?_ ?_
      · intro i p _ hi
        exact absurd hi (not_lt_zero i)
      · intro i p hp hi
        obtain ⟨hlt, -⟩ := List.getElem?_eq_some_iff.mp hp
        exact absurd hi (not_le.mpr hlt)
    · rfl

/-- Whether `*ret_key` is written. -/
def is_reference : Pointer R → Bool
  | .reference _ _ => true
  | _ => false

/-- **Lookup**: the first pair with the key is found, whatever the variant is kept
    like. But where it is a reference to an object, `*ret_key` is not written. -/
theorem by_key_full_eq {v : Pointer R} (hv : Sound v)
    (htype : sd_json_variant_type v = some .object) (key : List UInt8) :
    ∃ r, sd_json_variant_by_key_full v key = .ok r ∧
      r.value = (first_with_key (pairs_of v.elements) key).value ∧
      r.ret_key = if is_reference v then none
        else (first_with_key (pairs_of v.elements) key).ret_key := by
  induction hv with
  | null => cases htype
  | magic m =>
    cases m with
    | empty_object => exact ⟨_, rfl, rfl, rfl⟩
    | _ => cases htype
  | const_string s => cases htype
  | scalar hdepth =>
    rename_i k x
    cases x with
    | _ => cases htype
  | array => cases htype
  | object hl hregular hkeyed hdepth hmax hpos hsorted hnormal =>
    have hv := Sound.object hl hregular hkeyed hdepth hmax hpos hsorted hnormal
    exact ⟨_, by_key_object hv key, rfl, rfl⟩
  | reference hv hsome hflag ih =>
    obtain ⟨r, hr, hvalue, -⟩ := ih htype
    refine ⟨{ r with ret_key := none }, ?_, hvalue, rfl⟩
    have htarget := htype
    rw [sd_json_variant_type] at htarget
    rw [sd_json_variant_by_key_full, if_pos htarget, hr]
    rfl

theorem Sound.conservative_ne_null {w : Pointer R} (h : Sound w) (hne : w ≠ .null) :
    json_variant_conservative_formalize w ≠ .null := by
  intro hnull
  have htype := type_conservative w
  have hsome := h.type_isSome hne
  rw [hnull] at htype
  rw [← htype] at hsome
  cases hsome

end search

end SdCompat.Json.Kept
