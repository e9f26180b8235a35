import SdCompat.Lib.Transition
import SdCompat.SdJson.Denote
import SdCompat.SdJson.Normalize
import Mathlib.Data.List.Chain

/-! # What JSON variants know about themselves (sd-json.c)

    An array or an object keeps how deep it is, whether its keys are sorted and
    whether all that is in it is normalized. These are computed when something is
    put into it, and relied on later.

    * `Sound`: they are right, for all that is in a variant;
    * `Normal`: what `normalized` is to mean.
-/

open Transition

namespace SdCompat.Json.Kept

open Call List Pointer Outcome

variable {R : Type} [Double R] [DoubleCast R]

/-! ## Section 1: The invariant -/

/-- One plus the largest depth of these elements. -/
def levels : List (Pointer R) → Nat
  | [] => 0
  | w :: l => max (json_variant_depth w + 1) (levels l)

/-- The keys of an object with these elements. -/
def keys_of (l : List (Pointer R)) : List (List UInt8) := (pairs_of l).map key_of

/-- Every second element is a string, and has a value. -/
def Keyed (l : List (Pointer R)) : Prop :=
  l.length % 2 = 0 ∧ ∀ p ∈ pairs_of l, sd_json_variant_is_string p.1 = true

/-- The keys are strictly increasing. -/
def Increasing (l : List (Pointer R)) : Prop :=
  (keys_of l).Pairwise fun a b => strcmp_lt a b = true

/-- A real number that is no integer. The zero that a magic pointer stands for
    is one. -/
def Fractional (v : Pointer R) : Prop :=
  sd_json_variant_has_type v .real = true ∧ sd_json_variant_has_type v .integer = false ∧
    sd_json_variant_has_type v .unsigned = false ∧ sd_json_variant_real v ≠ Double.ofNat 0

/-- All objects in the variant are strictly sorted, and no real number in it is
    not an integer. -/
inductive Normal : Pointer R → Prop
  | null : Normal .null
  | magic (m : Magic) : Normal (.magic m)
  | const_string (s : List UInt8) : Normal (.const_string s)
  | scalar {h : Header} {x : Scalar R} (hx : ¬ Fractional (.scalar h x)) : Normal (.scalar h x)
  | array {h : Header} {l : List (Pointer R)} (hl : ∀ w ∈ l, Normal w) : Normal (.array h l)
  | object {h : Header} {l : List (Pointer R)} (hkeys : Increasing l) (hl : ∀ w ∈ l, Normal w) :
      Normal (.object h l)
  | reference {h : Header} {v : Pointer R} (hv : Normal v) : Normal (.reference h v)

/-- What is kept is right, in the variant and in all that is in it. -/
inductive Sound : Pointer R → Prop
  | null : Sound .null
  | magic (m : Magic) : Sound (.magic m)
  | const_string (s : List UInt8) : Sound (.const_string s)
  | scalar {h : Header} {x : Scalar R} (hdepth : h.depth = 0) : Sound (.scalar h x)
  | array {h : Header} {l : List (Pointer R)} (hl : ∀ w ∈ l, Sound w)
      (hregular : ∀ w ∈ l, json_variant_is_regular w = true)
      (hdepth : h.depth = levels l) (hmax : h.depth ≤ DEPTH_MAX) (hpos : l ≠ [])
      (hnormal : h.normalized = true → ∀ w ∈ l, Normal w) : Sound (.array h l)
  | object {h : Header} {l : List (Pointer R)} (hl : ∀ w ∈ l, Sound w)
      (hregular : ∀ w ∈ l, json_variant_is_regular w = true) (hkeyed : Keyed l)
      (hdepth : h.depth = levels l) (hmax : h.depth ≤ DEPTH_MAX) (hpos : l ≠ [])
      (hsorted : h.sorted = true ↔ Increasing l)
      (hnormal : h.normalized = true → Increasing l ∧ ∀ w ∈ l, Normal w) : Sound (.object h l)
  | reference {h : Header} {v : Pointer R} (hv : Sound v)
      (hsome : (sd_json_variant_type v).isSome = true) (hflag : h.normalized = false) :
      Sound (.reference h v)

/-! ## Section 2: Looking through references -/

section same
variable {v w : Pointer R}

theorem Sound.dereference (h : Sound v) : Sound (json_variant_dereference v) := by
  induction h with
  | reference hv hsome hflag ih => exact ih
  | null => exact .null
  | magic m => exact .magic m
  | const_string s => exact .const_string s
  | scalar hdepth => exact .scalar hdepth
  | array hl hregular hdepth hmax hpos hnormal => exact .array hl hregular hdepth hmax hpos hnormal
  | object hl hregular hkeyed hdepth hmax hpos hsorted hnormal =>
    exact .object hl hregular hkeyed hdepth hmax hpos hsorted hnormal

theorem Normal.dereference (h : Normal v) : Normal (json_variant_dereference v) := by
  induction h with
  | reference hv ih => exact ih
  | null => exact .null
  | magic m => exact .magic m
  | const_string s => exact .const_string s
  | scalar hx => exact .scalar hx
  | array hl => exact .array hl
  | object hkeys hl => exact .object hkeys hl

theorem Sound.formalize (h : Sound v) : Sound (json_variant_formalize v) := by
  rcases formalize_cases v with ⟨m, hm⟩ | hd
  · rw [hm]
    exact .magic m
  · rw [hd]
    exact h.dereference

theorem Normal.formalize (h : Normal v) : Normal (json_variant_formalize v) := by
  rcases formalize_cases v with ⟨m, hm⟩ | hd
  · rw [hm]
    exact .magic m
  · rw [hd]
    exact h.dereference

/-- What a conservative formalization is. -/
theorem conservative_cases (v : Pointer R) : json_variant_conservative_formalize v = v ∨
      json_variant_conservative_formalize v = json_variant_formalize v := by
  unfold json_variant_conservative_formalize
  split
  · exact .inl rfl
  · split
    · exact .inl rfl
    · exact .inr rfl

theorem Sound.conservative (h : Sound v) : Sound (json_variant_conservative_formalize v) := by
  rcases conservative_cases v with hc | hc
  · rw [hc]
    exact h
  · rw [hc]
    exact h.formalize

theorem Normal.conservative (h : Normal v) : Normal (json_variant_conservative_formalize v) := by
  rcases conservative_cases v with hc | hc
  · rw [hc]
    exact h
  · rw [hc]
    exact h.formalize

omit [Double R] [DoubleCast R] in
theorem depth_dereference (v : Pointer R) :
    json_variant_depth (json_variant_dereference v) = json_variant_depth v := by
  unfold json_variant_depth
  rw [dereference_idem]

theorem has_type_dereference (v : Pointer R) (type : VariantType) :
    sd_json_variant_has_type (json_variant_dereference v) type = sd_json_variant_has_type v type := by
  unfold sd_json_variant_has_type
  rw [dereference_idem]

theorem has_type_of_type {type : VariantType} (h : sd_json_variant_type v = some type) :
    sd_json_variant_has_type v type = true := by
  rw [← type_dereference] at h
  unfold sd_json_variant_has_type
  generalize json_variant_dereference v = w at h
  cases w with
  | null => cases h
  | magic m => exact if_pos h
  | const_string s => exact if_pos h
  | scalar k x => exact if_pos h
  | array k l => exact if_pos h
  | object k l => exact if_pos h
  | reference k u => exact if_pos h

/-- Only arrays and objects have elements. -/
theorem elements_of_not_container (ho : sd_json_variant_is_object v = false)
    (ha : sd_json_variant_is_array v = false) : v.elements = [] := by
  refine elements_eq_nil (fun htype => ?_) fun htype => ?_
  · exact Bool.false_ne_true (ha.symm.trans (has_type_of_type htype))
  · exact Bool.false_ne_true (ho.symm.trans (has_type_of_type htype))

/-- What has no elements is normal, unless it is such a real number. -/
theorem Sound.normal_of_plain (h : Sound v) (hempty : v.elements = []) (hnot : ¬ Fractional v) :
    Normal v := by
  induction h with
  | null => exact .null
  | magic m => exact .magic m
  | const_string s => exact .const_string s
  | scalar hdepth => exact .scalar hnot
  | array hl hregular hdepth hmax hpos hnormal => exact absurd hempty hpos
  | object hl hregular hkeyed hdepth hmax hpos hsorted hnormal => exact absurd hempty hpos
  | reference hv hsome hflag ih => exact .reference (ih hempty hnot)

/-- So is a string. -/
theorem Sound.normal_of_string (h : Sound v) (htype : sd_json_variant_type v = some .string) :
    Normal v := by
  refine h.normal_of_plain (elements_eq_nil ?_ ?_) ?_
  · rw [htype]
    decide
  · rw [htype]
    decide
  · rintro ⟨hreal, -⟩
    rw [← has_type_dereference] at hreal
    rw [← type_dereference] at htype
    have hno := dereference_ne_reference v
    generalize json_variant_dereference v = w at htype hreal hno
    cases w with
    | null => cases hreal
    | magic m =>
      cases m with
      | empty_string => cases hreal
      | _ => cases htype
    | const_string s => cases hreal
    | scalar k x =>
      cases x with
      | string s => cases hreal
      | _ => cases htype
    | array k l => cases hreal
    | object k l => cases hreal
    | reference k u => exact absurd rfl (hno _ _)

/-- It has no depth. -/
theorem Sound.depth_of_string (h : Sound v) (htype : sd_json_variant_type v = some .string) :
    json_variant_depth v = 0 := by
  induction h with
  | null => rfl
  | magic m => rfl
  | const_string s => rfl
  | scalar hdepth => exact hdepth
  | array => cases htype
  | object => cases htype
  | reference hv hsome hflag ih => exact ih htype

/-- A variant that is reported to be normalized is. -/
theorem Sound.normal (h : Sound v) (hnormal : sd_json_variant_is_normalized v = true) :
    Normal v := by
  unfold sd_json_variant_is_normalized at hnormal
  split at hnormal
  · cases hnormal
  · next hreal =>
    have hnot : ¬ Fractional v := by
      rintro ⟨hr, hi, hu, -⟩
      rw [hr, hi, hu] at hreal
      exact hreal rfl
    by_cases hempty : v.elements = []
    · exact h.normal_of_plain hempty hnot
    -- the flag counts
    have hcount : ¬ sd_json_variant_elements v = 0 := fun hzero =>
      hempty (length_eq_zero_iff.mp hzero)
    rw [if_neg hcount] at hnormal
    cases h with
    | null => exact .null
    | magic m => exact .magic m
    | const_string s => exact .const_string s
    | scalar hdepth => exact absurd rfl hempty
    | array hl hregular hdepth hmax hpos hflag => exact .array (hflag hnormal)
    | object hl hregular hkeyed hdepth hmax hpos hsorted hflag =>
      obtain ⟨hkeys, hall⟩ := hflag hnormal
      exact .object hkeys hall
    | reference hv hsome hflag =>
      split at hnormal
      · next hplain =>
        rw [Bool.and_eq_true, Bool.not_eq_true', Bool.not_eq_true'] at hplain
        exact absurd (elements_of_not_container hplain.1 hplain.2) hempty
      · exact absurd (hflag.symm.trans hnormal) Bool.false_ne_true

/-- A formal variant is as deep as it was. -/
theorem Sound.depth_formalize (h : Sound v) :
    json_variant_depth (json_variant_formalize v) = json_variant_depth v := by
  rw [← formalize_dereference, ← depth_dereference v]
  have hflat : ∀ w : Pointer R, json_variant_dereference w = w → json_variant_depth w = 0 →
      json_variant_depth (json_variant_formalize w) = json_variant_depth w := by
    intro w hw hzero
    rcases formalize_cases w with ⟨m, hm⟩ | hd
    · rw [hm, hzero]
      rfl
    · rw [hd, hw]
  have hd := h.dereference
  have hno := dereference_ne_reference v
  generalize json_variant_dereference v = w at hd hno
  cases hd with
  | null => rfl
  | magic m => exact hflat _ rfl rfl
  | const_string s => exact hflat _ rfl rfl
  | scalar hdepth => exact hflat _ rfl hdepth
  | array hl hregular hdepth hmax hpos hnormal =>
    rename_i k l
    have hcount : ¬ sd_json_variant_elements (.array k l : Pointer R) = 0 :=
      fun hzero => hpos (length_eq_zero_iff.mp hzero)
    exact congrArg json_variant_depth (if_neg hcount)
  | object hl hregular hkeyed hdepth hmax hpos hsorted hnormal =>
    rename_i k l
    have hcount : ¬ sd_json_variant_elements (.object k l : Pointer R) = 0 :=
      fun hzero => hpos (length_eq_zero_iff.mp hzero)
    exact congrArg json_variant_depth (if_neg hcount)
  | reference hv hsome hflag => exact absurd rfl (hno _ _)

theorem Sound.depth_conservative (h : Sound v) :
    json_variant_depth (json_variant_conservative_formalize v) = json_variant_depth v := by
  rcases conservative_cases v with hc | hc
  · rw [hc]
  · rw [hc, h.depth_formalize]

end same

/-! ## Section 3: Putting a variant into another one -/

section put
variable {a : Header} {b v w key value : Pointer R} {l : List (Pointer R)}

/-- A place where no flags are set. -/
structure Plain (a : Header) : Prop where
  depth : a.depth = 0
  sorted : a.sorted = false
  normalized : a.normalized = false

omit [Double R] [DoubleCast R] in
theorem plain_embedded (block i : Nat) (element : Pointer R) :
    Plain (embedded_header block i element) := ⟨rfl, rfl, rfl⟩

/-- What is stored in place of a variant. -/
structure Stored (v w : Pointer R) : Prop where
  sound : Sound w
  regular : json_variant_is_regular w = true
  depth : json_variant_depth w = json_variant_depth v
  normal : Normal v → Normal w

/-- A value that is no real number. -/
theorem stored_scalar {x : Scalar R} (ha : Plain a) (hv : json_variant_depth v = 0)
    (hnumber : sd_json_variant_has_type (.scalar a x) .real = true →
      sd_json_variant_has_type (.scalar a x) .integer = true ∨
      sd_json_variant_has_type (.scalar a x) .unsigned = true) : Stored v (.scalar a x) where
  sound := .scalar ha.depth
  regular := rfl
  depth := ha.depth.trans hv.symm
  normal _ := by
    refine .scalar ?_
    rintro ⟨hr, hi, hu, -⟩
    rcases hnumber hr with h | h
    · exact Bool.false_ne_true (hi.symm.trans h)
    · exact Bool.false_ne_true (hu.symm.trans h)

theorem type_conservative (v : Pointer R) :
    sd_json_variant_type (json_variant_conservative_formalize v) = sd_json_variant_type v := by
  rcases conservative_cases v with hc | hc
  · rw [hc]
  · rw [hc, type_formalize]

theorem stored_reference (ha : Plain a) (hb : Sound b)
    (hsome : (sd_json_variant_type b).isSome = true) :
    Stored b (.reference a (json_variant_conservative_formalize b)) where
  sound := .reference hb.conservative (by rwa [type_conservative]) ha.normalized
  regular := rfl
  depth := hb.depth_conservative
  normal h := .reference h.conservative

/-- What `json_variant_set` stores. -/
theorem stored_set (ha : Plain a) (hb : Sound b) : Stored b (json_variant_set a b) := by
  have hd := hb.dereference
  have hnormal : Normal b → Normal (json_variant_dereference b) := Normal.dereference
  have hdepth := depth_dereference b
  have hno := dereference_ne_reference b
  unfold json_variant_set
  generalize json_variant_dereference b = c at hd hnormal hdepth hno
  have hstored : ∀ w, Stored c w → Stored b w := fun w h =>
    ⟨h.sound, h.regular, h.depth.trans hdepth, fun hb => h.normal (hnormal hb)⟩
  apply hstored
  have hint : ∀ (i : Int), sd_json_variant_has_type (.scalar a (.integer i) : Pointer R) .integer = true :=
    fun i => has_type_of_type rfl
  have huns : ∀ (u : Nat), sd_json_variant_has_type (.scalar a (.unsigned u) : Pointer R) .unsigned = true :=
    fun u => has_type_of_type rfl
  have hstring : ∀ s, json_variant_depth c = 0 → Sound c →
      (sd_json_variant_type c).isSome = true → Stored c (if s.length ≤ INLINE_STRING_MAX then .scalar a (.string s)
        else .reference a (json_variant_conservative_formalize c)) := by
    intro s hzero hc htype
    split
    · exact stored_scalar ha hzero fun hr => absurd hr Bool.false_ne_true
    · exact stored_reference ha hc htype
  have hc := hd
  cases hd with
  | null => exact stored_scalar ha rfl fun hr => absurd hr Bool.false_ne_true
  | magic m =>
    cases m with
    | true => exact stored_scalar ha rfl fun hr => absurd hr Bool.false_ne_true
    | false => exact stored_scalar ha rfl fun hr => absurd hr Bool.false_ne_true
    | null => exact stored_scalar ha rfl fun hr => absurd hr Bool.false_ne_true
    | zero_integer => exact stored_scalar ha rfl fun _ => .inl (hint 0)
    | zero_unsigned => exact stored_scalar ha rfl fun _ => .inr (huns 0)
    | zero_real => exact ⟨.scalar ha.depth, rfl, ha.depth, fun _ => .scalar fun hf => hf.2.2.2 rfl⟩
    | empty_string => exact stored_scalar ha rfl fun hr => absurd hr Bool.false_ne_true
    | empty_array => exact stored_reference ha hc rfl
    | empty_object => exact stored_reference ha hc rfl
  | const_string s => exact hstring s rfl hc rfl
  | scalar hzero =>
    rename_i k x
    cases x with
    | null => exact stored_scalar ha hzero fun hr => absurd hr Bool.false_ne_true
    | boolean b => exact stored_scalar ha hzero fun hr => absurd hr Bool.false_ne_true
    | integer i => exact stored_scalar ha hzero fun _ => .inl (hint i)
    | unsigned u => exact stored_scalar ha hzero fun _ => .inr (huns u)
    | real x =>
      refine ⟨.scalar ha.depth, rfl, ha.depth.trans hzero.symm, fun hn => .scalar ?_⟩
      cases hn with
      | scalar hx => exact hx
    | string s => exact hstring s hzero hc rfl
  | array => exact stored_reference ha hc rfl
  | object => exact stored_reference ha hc rfl
  | reference hv hsome hflag => exact absurd rfl (hno _ _)

/-- The types of numbers. -/
def VariantType.is_number (type : VariantType) : Bool :=
  type = .integer || type = .unsigned || type = .real || type = .number

/-- Only a number has another type than its own. -/
theorem has_type_iff {type : VariantType} (hnumber : type.is_number = false) :
    sd_json_variant_has_type v type = true ↔ sd_json_variant_type v = some type := by
  refine ⟨fun h => ?_, has_type_of_type⟩
  rw [← type_dereference]
  unfold sd_json_variant_has_type at h
  have hscalar : ∀ x : Scalar R, x.has_number_type type = false := by
    intro x
    cases x with
    | _ =>
      cases type with
      | integer => cases hnumber
      | unsigned => cases hnumber
      | real => cases hnumber
      | number => cases hnumber
      | _ => rfl
  split at h
  · cases h
  · split at h
    · next htype => exact htype
    · split at h
      · exact absurd (hnumber.symm.trans h) Bool.false_ne_true
      · exact absurd (hnumber.symm.trans h) Bool.false_ne_true
      · exact absurd (hnumber.symm.trans h) Bool.false_ne_true
      · exact absurd ((hscalar _).symm.trans h) Bool.false_ne_true
      · cases h

/-- A variant has the type of a string if and only if it is one. -/
theorem is_string_iff : sd_json_variant_is_string v = true ↔ sd_json_variant_type v = some .string :=
  has_type_iff rfl

theorem is_array_iff : sd_json_variant_is_array v = true ↔ sd_json_variant_type v = some .array :=
  has_type_iff rfl

theorem is_object_iff : sd_json_variant_is_object v = true ↔ sd_json_variant_type v = some .object :=
  has_type_iff rfl

theorem is_null_iff : sd_json_variant_is_null v = true ↔ sd_json_variant_type v = some .null :=
  has_type_iff rfl

omit [Double R] [DoubleCast R] in
theorem string_of_type (h : sd_json_variant_type v = some .string) :
    ∃ s, sd_json_variant_string v = some s := by
  have hno := dereference_ne_reference v
  rw [← type_dereference] at h
  rw [← string_dereference]
  generalize json_variant_dereference v = w at h hno ⊢
  cases w with
  | null => cases h
  | magic m =>
    cases m with
    | empty_string => exact ⟨_, rfl⟩
    | _ => cases h
  | const_string s => exact ⟨_, rfl⟩
  | scalar k x =>
    cases x with
    | string s => exact ⟨_, rfl⟩
    | _ => cases h
  | array k l => cases h
  | object k l => cases h
  | reference k u => exact absurd rfl (hno _ _)

/-- A string is stored as a string. -/
theorem set_string (a : Header) (h : sd_json_variant_type b = some .string) :
    sd_json_variant_type (json_variant_set a b) = some .string ∧
      sd_json_variant_string (json_variant_set a b) = sd_json_variant_string b := by
  obtain ⟨s, hs⟩ := string_of_type h
  have hstring : ∀ w : Pointer R, sd_json_variant_type w = some .string →
      sd_json_variant_type (json_variant_conservative_formalize w) = some .string ∧
      sd_json_variant_string (json_variant_conservative_formalize w) = sd_json_variant_string w := by
    intro w hw
    rcases conservative_cases w with hc | hc
    · rw [hc]
      exact ⟨hw, rfl⟩
    · rw [hc, type_formalize, string_formalize]
      exact ⟨hw, rfl⟩
  have hd : sd_json_variant_string (json_variant_dereference b) = some s :=
    (string_dereference b).trans hs
  rw [← type_dereference] at h
  rw [hs]
  unfold json_variant_set
  dsimp only
  rw [h, hd]
  dsimp only
  split
  · exact ⟨rfl, rfl⟩
  · obtain ⟨htype, hstr⟩ := hstring _ h
    exact ⟨htype, hstr.trans hd⟩

omit [Double R] [DoubleCast R] in
theorem levels_append (l : List (Pointer R)) (w : Pointer R) :
    levels (l ++ [w]) = raise_depth (levels l) (json_variant_depth w) := by
  unfold raise_depth
  induction l with
  | nil => simp [levels]
  | cons u l ih =>
    rw [cons_append, levels, ih, levels]
    split
    · split
      · omega
      · omega
    · split
      · omega
      · omega

omit [Double R] [DoubleCast R] in
theorem raise_depth_le {depth d : Nat} (h : depth ≤ DEPTH_MAX) (hd : ¬ DEPTH_MAX ≤ d) :
    raise_depth depth d ≤ DEPTH_MAX := by
  unfold raise_depth
  split
  · omega
  · exact h

omit [Double R] [DoubleCast R] in
theorem pairs_of_append (h : l.length % 2 = 0) (rest : List (Pointer R)) :
    pairs_of (l ++ rest) = pairs_of l ++ pairs_of rest := by
  induction l using pairs_of.induct with
  | case1 k v l ih =>
    have hl : l.length % 2 = 0 := by
      rw [length_cons, length_cons] at h
      omega
    change (k, v) :: pairs_of (l ++ rest) = (k, v) :: (pairs_of l ++ pairs_of rest)
    rw [ih hl]
  | case2 l hshort =>
    rcases l with _ | ⟨k, _ | ⟨v, l⟩⟩
    · rfl
    · cases h
    · exact absurd rfl (hshort k v l)

omit [Double R] [DoubleCast R] in
theorem keys_of_append (h : l.length % 2 = 0) (key value : Pointer R) :
    keys_of (l ++ [key, value]) = keys_of l ++ [key_of (key, value)] := by
  unfold keys_of
  rw [pairs_of_append h, map_append]
  rfl

/-- `strcmp` is an order. -/
theorem strcmp_lt_trans {x y z : List UInt8} (h : strcmp_lt x y = true) (h' : strcmp_lt y z = true) :
    strcmp_lt x z = true := by
  unfold strcmp_lt at *
  rw [decide_eq_true_iff] at *
  exact List.lt_trans h h'

instance : Trans (fun x y => strcmp_lt x y = true) (fun x y => strcmp_lt x y = true)
    (fun x y => strcmp_lt x y = true) := ⟨strcmp_lt_trans⟩

omit [Double R] [DoubleCast R] in
/-- One more key keeps the order if it is greater than the last one. -/
theorem increasing_append (h : l.length % 2 = 0) (key value : Pointer R) :
    Increasing (l ++ [key, value]) ↔
      Increasing l ∧ ∀ p ∈ (keys_of l).getLast?, strcmp_lt p (key_of (key, value)) = true := by
  unfold Increasing
  rw [keys_of_append h, ← isChain_iff_pairwise, isChain_append, isChain_iff_pairwise]
  constructor
  · rintro ⟨hl, -, hlast⟩
    exact ⟨hl, fun p hp => hlast p hp _ rfl⟩
  · rintro ⟨hl, hlast⟩
    refine ⟨hl, isChain_singleton _, fun p hp k hk => ?_⟩
    cases hk
    exact hlast p hp

end put

/-! ## Section 4: The constructors -/

section constructors
variable {l : List (Pointer R)} {e key value : Pointer R}

/-- What is right in an array that is being built. -/
structure NewArray.Sound (v : NewArray R) : Prop where
  elements : ∀ w ∈ v.elements, Kept.Sound w
  regular : ∀ w ∈ v.elements, json_variant_is_regular w = true
  depth : v.depth = levels v.elements
  max : v.depth ≤ DEPTH_MAX
  normal : v.normalized = true → ∀ w ∈ v.elements, Normal w

variable {v : NewArray R}

theorem NewArray.Sound.array (hv : v.Sound) (hpos : v.elements ≠ []) (address : Address)
    (located sorted : Bool) :
    Kept.Sound (.array ⟨address, located, v.depth, sorted, v.normalized⟩ v.elements) :=
  .array hv.elements hv.regular hv.depth hv.max hpos hv.normal

/-- One more element. Only one that is too deep is refused. -/
theorem put_element_sound (block : Nat) (hv : v.Sound) (he : Sound e) :
    (DEPTH_MAX ≤ json_variant_depth e →
      json_variant_array_put_element block v e = .err Errno.ELNRNG) ∧
    (¬ DEPTH_MAX ≤ json_variant_depth e → ∃ w, json_variant_array_put_element block v e = .ok w ∧
      w.Sound ∧ w.elements = v.elements ++
        [json_variant_set (embedded_header block v.elements.length e) e]) := by
  refine ⟨fun hdeep => if_pos hdeep, fun hdeep => ⟨_, if_neg hdeep, ?_, rfl⟩⟩
  have hs := stored_set (plain_embedded block v.elements.length e) he
  refine ⟨?_, ?_, ?_, raise_depth_le hv.max hdeep, ?_⟩
  · intro w hw
    rcases mem_append.mp hw with hw | hw
    · exact hv.elements w hw
    · obtain rfl := mem_singleton.mp hw
      exact hs.sound
  · intro w hw
    rcases mem_append.mp hw with hw | hw
    · exact hv.regular w hw
    · obtain rfl := mem_singleton.mp hw
      exact hs.regular
  · change raise_depth v.depth _ = levels (_ ++ [_])
    rw [levels_append, hs.depth, hv.depth]
  · intro hnormal w hw
    obtain ⟨hall, hone⟩ := (Bool.and_eq_true ..).mp hnormal
    rcases mem_append.mp hw with hw | hw
    · exact hv.normal hall w hw
    · obtain rfl := mem_singleton.mp hw
      exact hs.normal (he.normal hone)

/-- The constructor does not abort, and what it makes has this value, if it does
    not fail. -/
def Makes (x : Call Heap (Pointer R)) (value : Variant R) : Prop :=
  ∀ s, Ensures x s (fun v _ => Sound v ∧ v.value = value) fun _ => True

theorem ensures_alloc (s : Heap) : Ensures alloc s (fun _ _ => True) fun _ => True := by
  unfold Ensures alloc
  split
  · trivial
  · trivial
  · next h =>
    split at h
    · cases h
    · cases h

theorem put_elements_sound (block : Nat) (l : List (Pointer R)) (hl : ∀ e ∈ l, Sound e)
    (hv : v.Sound) : json_variant_array_put_elements block v l ≠ .abort ∧
      ∀ w, json_variant_array_put_elements block v l = .ok w →
        w.Sound ∧ w.elements.map Pointer.value = v.elements.map Pointer.value ++
          l.map Pointer.value := by
  induction l generalizing v with
  | nil =>
    refine ⟨fun h => (by cases h), fun w h => ?_⟩
    obtain rfl := ok.inj h
    exact ⟨hv, (append_nil _).symm⟩
  | cons e l ih =>
    obtain ⟨hdeep, hflat⟩ := put_element_sound block hv (hl e (mem_cons_self ..))
    unfold json_variant_array_put_elements
    by_cases hd : DEPTH_MAX ≤ json_variant_depth e
    · rw [hdeep hd]
      exact ⟨fun h => (by cases h), fun w h => (by cases h)⟩
    · obtain ⟨u, hu, hsound, helements⟩ := hflat hd
      rw [hu]
      obtain ⟨habort, hok⟩ := ih (fun w hw => hl w (mem_cons_of_mem _ hw)) hsound
      refine ⟨habort, fun w h => ?_⟩
      obtain ⟨hw, hvalues⟩ := hok w h
      refine ⟨hw, hvalues.trans ?_⟩
      rw [helements, map_append, append_assoc, map_singleton, value_set]
      rfl

theorem makes_new_array (l : List (Pointer R)) (hl : ∀ e ∈ l, Sound e) :
    Makes (sd_json_variant_new_array l) (.array (l.map Pointer.value)) := by
  intro s
  unfold sd_json_variant_new_array
  split
  · next hnil =>
    subst hnil
    exact ensures_pure ⟨.magic _, rfl⟩
  · next hne =>
    refine ensures_bind (ensures_alloc s) fun block s' _ => ?_
    obtain ⟨habort, hok⟩ := put_elements_sound block l hl
      (v := ⟨[], 0, true⟩) ⟨nofun, nofun, rfl, Nat.zero_le _, fun _ => nofun⟩
    refine ensures_lift_bind (fun _ _ => trivial) habort fun v hv => ?_
    obtain ⟨hsound, hvalues⟩ := hok v hv
    refine ensures_pure ⟨hsound.array ?_ _ _ _, ?_⟩
    · intro hnil
      rw [hnil] at hvalues
      exact hne (map_eq_nil_iff.mp hvalues.symm)
    · rw [value, values_eq, hvalues]
      rfl

/-- What is right in an object that is being built. -/
structure NewObject.Sound (v : NewObject R) : Prop where
  elements : ∀ w ∈ v.elements, Kept.Sound w
  regular : ∀ w ∈ v.elements, json_variant_is_regular w = true
  keyed : Keyed v.elements
  depth : v.depth = levels v.elements
  max : v.depth ≤ DEPTH_MAX
  prev : v.prev = (keys_of v.elements).getLast?
  sorted : v.sorted = true ↔ Increasing v.elements
  normal : v.normalized = true → Increasing v.elements ∧ ∀ w ∈ v.elements, Normal w

theorem NewObject.Sound.object {v : NewObject R} (hv : v.Sound) (hpos : v.elements ≠ [])
    (address : Address) (located : Bool) :
    Kept.Sound (.object ⟨address, located, v.depth, v.sorted, v.normalized⟩ v.elements) :=
  .object hv.elements hv.regular hv.keyed hv.depth hv.max hpos hv.sorted hv.normal

/-- One more key with its value. -/
theorem in_order_iff (prev : Option (List UInt8)) (k : List UInt8) :
    (match prev with | some prev => strcmp_lt prev k | none => true) = true ↔
      ∀ p ∈ prev, strcmp_lt p k = true := by
  cases prev with
  | none => exact ⟨fun _ p hp => (by cases hp), fun _ => rfl⟩
  | some p =>
    refine ⟨fun hlt p' hp' => ?_, fun hall => hall p rfl⟩
    cases hp'
    exact hlt

theorem put_pair_sound (block : Nat) {v : NewObject R} (hv : v.Sound) (hk : Sound key) (hw' : Sound value) :
    json_variant_object_put_pair block v key value ≠ .abort ∧
    ∀ u, json_variant_object_put_pair block v key value = .ok u → u.Sound ∧
      sd_json_variant_is_string key = true ∧ u.elements = v.elements ++
        [json_variant_set (embedded_header block v.elements.length key) key,
         json_variant_set (embedded_header block (v.elements.length + 1) value) value] := by
  unfold json_variant_object_put_pair
  cases hstring : sd_json_variant_is_string key with
  | false => exact ⟨fun h => (by cases h), fun u h => (by cases h)⟩
  | true =>
    have htype := is_string_iff.mp hstring
    obtain ⟨k, hkey⟩ := string_of_type htype
    rw [hkey]
    dsimp only
    split
    · exact ⟨fun h => (by cases h), fun u h => (by cases h)⟩
    · next hflat =>
      rw [Bool.or_eq_true, decide_eq_true_iff, decide_eq_true_iff, not_or] at hflat
      refine ⟨fun h => (by cases h), fun u h => ?_⟩
      obtain rfl := ok.inj h
      refine ⟨?_, rfl, rfl⟩
      have hsk := stored_set (plain_embedded block v.elements.length key) hk
      have hsw := stored_set (plain_embedded block (v.elements.length + 1) value) hw'
      obtain ⟨hset_type, hset_string⟩ :=
        set_string (embedded_header block v.elements.length key) htype
      have heven := hv.keyed.1
      have hkeyof : ∀ w, key_of
          (json_variant_set (embedded_header block v.elements.length key) key, w) = k := by
        intro w
        unfold key_of
        rw [hset_string, hkey]
        rfl
      have hinc := increasing_append heven
        (json_variant_set (embedded_header block v.elements.length key) key)
        (json_variant_set (embedded_header block (v.elements.length + 1) value) value)
      rw [hkeyof, ← hv.prev, ← in_order_iff] at hinc
      refine ⟨?_, ?_, ⟨?_, ?_⟩, ?_, ?_, ?_, ?_, ?_⟩
      · intro w hw
        rcases mem_append.mp hw with hw | hw
        · exact hv.elements w hw
        · rcases mem_pair.mp hw with rfl | rfl
          · exact hsk.sound
          · exact hsw.sound
      · intro w hw
        rcases mem_append.mp hw with hw | hw
        · exact hv.regular w hw
        · rcases mem_pair.mp hw with rfl | rfl
          · exact hsk.regular
          · exact hsw.regular
      · rw [length_append, length_cons, length_singleton]
        omega
      · intro p hp
        rw [pairs_of_append heven] at hp
        rcases mem_append.mp hp with hp | hp
        · exact hv.keyed.2 p hp
        · obtain rfl := mem_singleton.mp hp
          exact has_type_of_type hset_type
      · rw [append_cons, levels_append, levels_append, hsk.depth, hsw.depth, ← hv.depth]
      · exact raise_depth_le (raise_depth_le hv.max hflat.1) hflat.2
      · rw [keys_of_append heven, getLast?_concat, hkeyof]
      · rw [hinc]
        exact (Iff.of_eq (Bool.and_eq_true _ _)).trans (and_congr_left' hv.sorted)
      · intro hnormal
        rw [Bool.and_eq_true, Bool.and_eq_true] at hnormal
        obtain ⟨⟨hall, horder⟩, hone⟩ := hnormal
        obtain ⟨hincreasing, hold⟩ := hv.normal hall
        refine ⟨hinc.mpr ⟨hincreasing, horder⟩, fun w hw => ?_⟩
        rcases mem_append.mp hw with hw | hw
        · exact hold w hw
        · rcases mem_pair.mp hw with rfl | rfl
          · exact hsk.normal (hk.normal_of_string htype)
          · exact hsw.normal (hw'.normal hone)

theorem put_pairs_sound (block : Nat) (l : List (Pointer R)) (hl : ∀ e ∈ l, Sound e) {v : NewObject R}
    (hv : v.Sound) : json_variant_object_put_pairs block v l ≠ .abort ∧
      ∀ w, json_variant_object_put_pairs block v l = .ok w → w.Sound ∧
        members w.elements = members v.elements ++ members l := by
  induction l using pairs_of.induct generalizing v with
  | case1 key value l ih =>
    obtain ⟨habort, hok⟩ := put_pair_sound block hv (hl key (by simp)) (hl value (by simp))
    unfold json_variant_object_put_pairs
    cases hput : json_variant_object_put_pair block v key value with
    | err e => exact ⟨fun h => (by cases h), fun w h => (by cases h)⟩
    | abort => exact absurd hput habort
    | ok u =>
      obtain ⟨hsound, hstring, helements⟩ := hok u hput
      obtain ⟨habort', hok'⟩ := ih (fun e he => hl e (by simp [he])) hsound
      refine ⟨habort', fun w hw => ?_⟩
      obtain ⟨hw, hmembers⟩ := hok' w hw
      refine ⟨hw, hmembers.trans ?_⟩
      -- what is stored has the key and the value
      obtain ⟨-, hset⟩ := set_string (embedded_header block v.elements.length key)
        (is_string_iff.mp hstring)
      have hpair : ∀ k' v' : Pointer R, Pointer.members [k', v'] =
          [((sd_json_variant_string k').getD [], Pointer.value v')] := fun _ _ => rfl
      have happend : Pointer.members u.elements =
          members v.elements ++ members [key, value] := by
        rw [helements, members_eq, pairs_of_append hv.keyed.1, map_append,
          ← members_eq, ← members_eq, hpair, hset, value_set, hpair]
      rw [happend, append_assoc]
      rfl
  | case2 l hshort =>
    rcases l with _ | ⟨key, _ | ⟨value, l⟩⟩
    · refine ⟨fun h => (by cases h), fun w h => ?_⟩
      obtain rfl := ok.inj h
      exact ⟨hv, (append_nil _).symm⟩
    · refine ⟨fun h => (by cases h), fun w h => ?_⟩
      obtain rfl := ok.inj h
      exact ⟨hv, (append_nil _).symm⟩
    · exact absurd rfl (hshort key value l)

theorem makes_new_object (l : List (Pointer R)) (hl : ∀ e ∈ l, Sound e) :
    Makes (sd_json_variant_new_object l) (.object (members l)) := by
  intro s
  unfold sd_json_variant_new_object
  split
  · next hnil =>
    subst hnil
    exact ensures_pure ⟨.magic _, rfl⟩
  · next hne =>
    split
    · exact ensures_fail trivial
    · next heven =>
      refine ensures_bind (ensures_alloc s) fun block s' _ => ?_
      obtain ⟨habort, hok⟩ := put_pairs_sound block l hl
        (v := ⟨[], 0, none, true, true⟩)
        ⟨nofun, nofun, ⟨rfl, nofun⟩, rfl, Nat.zero_le _, rfl, ⟨fun _ => .nil, fun _ => rfl⟩,
          fun _ => ⟨.nil, nofun⟩⟩
      refine ensures_lift_bind (fun _ _ => trivial) habort fun v hv => ?_
      obtain ⟨hsound, hmembers⟩ := hok v hv
      refine ensures_pure ⟨hsound.object ?_ _ _, ?_⟩
      · intro hnil
        rw [hnil] at hmembers
        match l with
        | [] => exact hne rfl
        | [u] => exact heven Nat.one_ne_zero
        | key :: value :: l => cases hmembers
      · rw [value, hmembers]
        rfl

/-- An element that has no elements, and is normal. -/
structure FlatElement (w : Pointer R) : Prop where
  sound : Sound w
  regular : json_variant_is_regular w = true
  depth : json_variant_depth w = 0
  normal : Normal w

def Flat (l : List (Pointer R)) : Prop := ∀ w ∈ l, FlatElement w

theorem Flat.append (h : Flat l) (he : FlatElement e) : Flat (l ++ [e]) := by
  intro w hw
  rcases mem_append.mp hw with hw | hw
  · exact h w hw
  · obtain rfl := mem_singleton.mp hw
    exact he

/-- An array of such elements. -/
theorem Flat.array (h : Flat l) (hpos : l ≠ []) (address : Address) (located sorted : Bool) :
    Sound (.array ⟨address, located, 1, sorted, true⟩ l) := by
  have hmax : 1 ≤ DEPTH_MAX := by decide
  refine .array (fun w hw => (h w hw).sound) (fun w hw => (h w hw).regular) ?_ hmax hpos
    fun _ w hw => (h w hw).normal
  have hlevels : ∀ k : List (Pointer R), Flat k → k ≠ [] → levels k = 1 := by
    intro k hk hne
    induction k with
    | nil => exact absurd rfl hne
    | cons u k ih =>
      rw [levels, (hk u (mem_cons_self ..)).depth]
      by_cases hnil : k = []
      · rw [hnil]
        rfl
      · rw [ih (fun w hw => hk w (mem_cons_of_mem _ hw)) hnil]
        rfl
  exact (hlevels l h hpos).symm

/-- A scalar of its own. -/
theorem makes_new (x : Scalar R) : Makes (json_variant_new x) x.value := by
  intro s
  exact ensures_bind (ensures_alloc s) fun block s' _ => ensures_pure ⟨.scalar rfl, rfl⟩

theorem makes_new_string (t : List UInt8) :
    Makes (sd_json_variant_new_string t : Call Heap (Pointer R)) (.string t) := by
  intro s
  unfold sd_json_variant_new_string
  split
  · next hnil =>
    subst hnil
    exact ensures_pure ⟨.magic _, rfl⟩
  · exact ensures_check_bind trivial fun _ => makes_new _ s

theorem makes_new_array_bytes (p : List UInt8) :
    Makes (sd_json_variant_new_array_bytes p : Call Heap (Pointer R))
      (.array (p.map fun b => .unsigned b.toNat)) := by
  intro s
  unfold sd_json_variant_new_array_bytes
  split
  · next hnil =>
    subst hnil
    exact ensures_pure ⟨.magic _, rfl⟩
  · next hne =>
    refine ensures_bind (ensures_alloc s) fun block s' _ => ensures_pure ?_
    have hflat : Flat (p.mapIdx fun i b =>
        (.scalar (.blank (block, i + 1)) (.unsigned b.toNat) : Pointer R)) := by
      intro w hw
      obtain ⟨i, hi, rfl⟩ := mem_mapIdx.mp hw
      refine ⟨.scalar rfl, rfl, rfl, .scalar ?_⟩
      rintro ⟨-, -, hu, -⟩
      exact Bool.false_ne_true (hu.symm.trans (has_type_of_type rfl))
    refine ⟨hflat.array ?_ _ _ _, ?_⟩
    · intro hnil
      exact hne (mapIdx_eq_nil_iff.mp hnil)
    · rw [value, values_eq]
      refine congrArg Variant.array (ext_getElem (by simp) fun i hi _ => ?_)
      simp only [getElem_map, getElem_mapIdx]
      rfl

/-- The loop over the strings. -/
theorem put_strings_flat (l : List (List UInt8)) {v : List (Pointer R)} (hv : Flat v) (s : Heap) :
    Ensures (json_variant_put_strings block v l) s
      (fun w _ => Flat w ∧ w.map Pointer.value = v.map Pointer.value ++ l.map .string)
      fun _ => True := by
  induction l generalizing v s with
  | nil => exact ensures_pure ⟨hv, (append_nil _).symm⟩
  | cons t l ih =>
    -- one more element, that is the string
    have hgo : ∀ (w : Pointer R) s', FlatElement w → w.value = .string t → Ensures (json_variant_put_strings block (v ++ [w]) l) s'
          (fun u _ => Flat u ∧ u.map value = v.map value ++ (t :: l).map .string)
          fun _ => True := by
      intro w s' hw hvalue
      refine ensures_mono (ih (hv.append hw) s') ?_ fun _ h => h
      rintro u _ ⟨hu, hvalues⟩
      refine ⟨hu, hvalues.trans ?_⟩
      rw [map_append, append_assoc, map_singleton, hvalue]
      rfl
    unfold json_variant_put_strings
    split
    · refine ensures_bind (makes_new_string t s) fun w s' hw => ?_
      obtain ⟨hsound, hvalue⟩ := hw
      obtain ⟨htype, -⟩ := string_of_value hvalue
      refine hgo _ s' ⟨.reference hsound (by rw [htype]; rfl) rfl, rfl, hsound.depth_of_string htype,
        .reference (hsound.normal_of_string htype)⟩ ?_
      rw [value, hvalue]
    · refine ensures_check_bind trivial fun _ => ?_
      have hsound : Sound (.scalar (.blank (block, v.length + 1)) (.string t) : Pointer R) :=
        .scalar rfl
      exact hgo _ s ⟨hsound, rfl, rfl, hsound.normal_of_string rfl⟩ rfl

theorem makes_new_array_strv (l : List (List UInt8)) :
    Makes (sd_json_variant_new_array_strv l : Call Heap (Pointer R)) (.array (l.map .string)) := by
  intro s
  unfold sd_json_variant_new_array_strv
  split
  · next hnil =>
    subst hnil
    exact ensures_pure ⟨.magic _, rfl⟩
  · next hne =>
    refine ensures_bind (ensures_alloc s) fun block s' _ => ?_
    refine ensures_bind (put_strings_flat l (v := []) nofun s') fun w s'' hw => ?_
    obtain ⟨hflat, hvalues⟩ := hw
    refine ensures_pure ⟨hflat.array ?_ _ _ _, ?_⟩
    · intro hnil
      rw [hnil] at hvalues
      exact hne (map_eq_nil_iff.mp hvalues.symm)
    · rw [value, values_eq, hvalues]
      rfl

theorem makes_constant (c : Constant R) : ∃ value, Makes c.new value := by
  cases c with
  | integer i =>
    refine ⟨.integer i, fun s => ?_⟩
    change Ensures (if i = 0 then _ else _) s _ _
    split
    · next hzero =>
      subst hzero
      exact ensures_pure ⟨.magic _, rfl⟩
    · exact makes_new _ s
  | unsigned u =>
    refine ⟨.unsigned u, fun s => ?_⟩
    change Ensures (if u = 0 then _ else _) s _ _
    split
    · next hzero =>
      subst hzero
      exact ensures_pure ⟨.magic _, rfl⟩
    · exact makes_new _ s
  | real d =>
    change ∃ value, Makes (sd_json_variant_new_real d) value
    unfold sd_json_variant_new_real
    cases Double.fpclassify d with
    | nan => exact ⟨_, fun s => ensures_pure ⟨.magic _, rfl⟩⟩
    | infinite => exact ⟨_, fun s => ensures_pure ⟨.magic _, rfl⟩⟩
    | zero => exact ⟨_, fun s => ensures_pure ⟨.magic _, rfl⟩⟩
    | normal => exact ⟨_, makes_new _⟩
  | boolean b =>
    refine ⟨.boolean b, fun s => ensures_pure ?_⟩
    cases b with
    | true => exact ⟨.magic _, rfl⟩
    | false => exact ⟨.magic _, rfl⟩
  | null => exact ⟨.null, fun s => ensures_pure ⟨.magic _, rfl⟩⟩
  | string t => exact ⟨_, makes_new_string t⟩
  | const_string t => exact ⟨.string t, fun s => ensures_pure ⟨.const_string t, rfl⟩⟩
  | array_bytes p => exact ⟨_, makes_new_array_bytes p⟩
  | array_strv l => exact ⟨_, makes_new_array_strv l⟩

theorem Sound.with_located (h : Sound e) (located : Bool) :
    Sound (e.with_located located) ∧ (e.with_located located).value = e.value := by
  cases h with
  | null => exact ⟨.null, rfl⟩
  | magic m => exact ⟨.magic m, rfl⟩
  | const_string s => exact ⟨.const_string s, rfl⟩
  | scalar hdepth => exact ⟨.scalar hdepth, rfl⟩
  | array hl hregular hdepth hmax hpos hnormal =>
    refine ⟨.array hl hregular hdepth hmax hpos hnormal, ?_⟩
    rw [with_located, value, value]
  | object hl hregular hkeyed hdepth hmax hpos hsorted hnormal =>
    refine ⟨.object hl hregular hkeyed hdepth hmax hpos hsorted hnormal, ?_⟩
    rw [with_located, value, value]
  | reference hv hsome hflag =>
    refine ⟨.reference hv hsome hflag, ?_⟩
    rw [with_located, value, value]

theorem ensures_sensitive (v : Pointer R) (s : Heap) :
    Ensures (sd_json_variant_sensitive v) s (fun _ _ => True) fun _ => True := by
  unfold sd_json_variant_sensitive
  split
  · exact ensures_pure trivial
  · exact ensures_modify trivial

theorem ensures_propagate (src dst : Pointer R) (s : Heap) :
    Ensures (json_variant_propagate_sensitive src dst) s (fun _ _ => True) fun _ => True := by
  refine ensures_get_bind ?_
  split
  · exact ensures_sensitive dst s
  · exact ensures_pure trivial

theorem Sound.type_isSome (h : Sound e) (hne : e ≠ .null) :
    (sd_json_variant_type e).isSome = true := by
  cases h with
  | null => exact absurd rfl hne
  | reference hv hsome hflag => exact hsome
  | _ => rfl

/-- A copy has the same value. -/
theorem makes_copy (he : Sound e) (hsome : (sd_json_variant_type e).isSome = true) : Makes (json_variant_copy e) e.value := by
  intro s
  have hby_value : ∀ x : Scalar R, e.value = x.value →
      Ensures (do
        let c ← json_variant_new x
        json_variant_propagate_sensitive e c
        pure c) s (fun v _ => Sound v ∧ v.value = e.value) fun _ => True := by
    intro x hx
    refine ensures_bind (makes_new x s) fun c s' hc => ?_
    refine ensures_bind (ensures_propagate e c s') fun _ s'' _ => ensures_pure ?_
    exact ⟨hc.1, hc.2.trans hx.symm⟩
  have hby_reference : Ensures (do
        let block ← alloc
        pure (.reference (.blank (block, 0)) (json_variant_formalize e))) s
      (fun v _ => Sound v ∧ v.value = e.value) fun _ => True := by
    refine ensures_bind (ensures_alloc s) fun block s' _ => ensures_pure ?_
    refine ⟨.reference he.formalize (by rwa [type_formalize]) rfl, ?_⟩
    rw [value, value_formalize]
  have htype := value_of_type e
  unfold json_variant_copy
  split
  · next h =>
    rw [h] at htype
    exact hby_value _ htype
  · next h =>
    rw [h] at htype
    exact hby_value _ htype
  · next h =>
    rw [h] at htype
    exact hby_value _ htype
  · next h =>
    rw [h] at htype
    exact hby_value _ htype
  · next h =>
    rw [h] at htype
    exact hby_value _ htype
  · next h =>
    rw [h] at htype
    obtain ⟨t, ht, hvalue⟩ := htype
    rw [ht]
    dsimp only
    split
    · exact hby_value _ hvalue
    · exact hby_reference
  · exact hby_reference

/-- The source of a variant does not count. -/
theorem makes_set_source (he : Sound e) (located same single : Bool) :
    Makes (json_variant_set_source located same single e) e.value := by
  intro s
  have hcopy : e ≠ .null →
      Ensures (json_variant_copy e >>= fun w => pure (w.with_located located)) s
        (fun v _ => Sound v ∧ v.value = e.value) fun _ => True := by
    intro hne
    refine ensures_bind (makes_copy he (he.type_isSome hne) s) fun w s' hw => ?_
    obtain ⟨hsound, hvalue⟩ := hw
    obtain ⟨hsound', hvalue'⟩ := hsound.with_located located
    exact ensures_pure ⟨hsound', hvalue'.trans hvalue⟩
  have hplace : Sound (e.with_located located) ∧ (e.with_located located).value = e.value :=
    he.with_located located
  have hstay : Sound e ∧ e.value = e.value := ⟨he, rfl⟩
  unfold json_variant_set_source
  split
  · exact ensures_pure ⟨.null, rfl⟩
  · next hne =>
    split
    · exact ensures_pure hstay
    · split
      · exact ensures_pure hstay
      · split
        · exact ensures_pure hplace
        · exact hcopy hne

end constructors

end SdCompat.Json.Kept
