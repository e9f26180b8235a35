import SdCompat.SdJson.Construct

/-! # Sorting and normalizing JSON variants (sd-json.c)

    `sd_json_variant_sort` puts the members of an object into the order of their
    keys, and `sd_json_variant_normalize` does so for all the objects that are in
    a variant.
-/

namespace SdCompat.Json.Kept

variable {R : Type} [Double R] [DoubleCast R]

/-- The key of a pair, as `sd_json_variant_string` gives it. -/
def key_of (p : Pointer R × Pointer R) : List UInt8 := (sd_json_variant_string p.1).getD []

/-- `qsort` with `json_cmp_strings`. Where a key is not a string the comparison is
    one of pointers, and the order is left open here. -/
structure Qsort (R : Type) [Double R] [DoubleCast R] where
  sort : List (Pointer R × Pointer R) → List (Pointer R × Pointer R)
  perm : ∀ l, (sort l).Perm l
  sorted : ∀ l, (∀ p ∈ l, sd_json_variant_is_string p.1 = true) →
    (sort l).Pairwise fun p q => strcmp_lt (key_of q) (key_of p) = false

/-- The order of `json_cmp_strings`. -/
def cmp_strings (p p' : Pointer R × Pointer R) : Bool := !strcmp_lt (key_of p') (key_of p)

omit [Double R] [DoubleCast R] in
theorem cmp_strings_iff (p p' : Pointer R × Pointer R) :
    cmp_strings p p' = true ↔ key_of p ≤ key_of p' := by
  unfold cmp_strings strcmp_lt
  rw [Bool.not_eq_true', decide_eq_false_iff_not]
  exact List.not_lt

/-- Such a `qsort`: a merge sort. -/
def Qsort.merge : Qsort R where
  sort l := l.mergeSort cmp_strings
  perm l := List.mergeSort_perm l cmp_strings
  sorted l _ := by
    have hsorted : (l.mergeSort cmp_strings).Pairwise fun p p' => cmp_strings p p' = true := by
      refine List.pairwise_mergeSort ?_ ?_ l
      · intro a b c hab hbc
        rw [cmp_strings_iff] at *
        exact List.le_trans hab hbc
      · intro a b
        rw [Bool.or_eq_true, cmp_strings_iff, cmp_strings_iff]
        exact List.le_total _ _
    refine hsorted.imp fun {p p'} h => ?_
    exact (Bool.not_eq_true' _).mp h

variable (q : Qsort R)

/-- `qsort(a, m/2, sizeof(sd_json_variant*)*2, json_cmp_strings)` -/
def qsort_pairs (a : List (Pointer R)) : List (Pointer R) :=
  of_pairs (q.sort (pairs_of a)) ++ a.drop (2 * (a.length / 2))

/-- The flag `sorted` of what has been made. -/
def Pointer.flag_sorted (v : Pointer R) : Bool :=
  match v.header? with
  | some h => h.sorted
  | none => false

def Pointer.flag_normalized (v : Pointer R) : Bool :=
  match v.header? with
  | some h => h.normalized
  | none => false

/-- `sd_json_variant_sort` -/
def sd_json_variant_sort : Call (Slot R) Nat := do
  let s ← Call.get
  let v := s.v
  if sd_json_variant_is_sorted v then pure 0
  else do
    Call.check (sd_json_variant_is_object v) Errno.EMEDIUMTYPE
    let _ ← on_heap alloc
    let n ← on_heap (sd_json_variant_new_object (qsort_pairs q v.children))
    on_heap (json_variant_propagate_sensitive v n)
    -- this will fail if there are multiple identical keys used
    Call.check n.flag_sorted Errno.ENOTUNIQ
    json_variant_unref_and_replace n
    pure 1

mutual
/-- `sd_json_variant_normalize`: the variant then, and what is returned. -/
def normalize (v : Pointer R) : Call Heap (Pointer R × Nat) :=
  if sd_json_variant_is_normalized v then pure (v, 0)
  else do
    Call.check (sd_json_variant_is_object v || sd_json_variant_is_array v) Errno.EMEDIUMTYPE
    let _ ← alloc
    let a ← normalize_elements v.children
    let a := qsort_pairs q a
    let n ←
      if sd_json_variant_is_object v then sd_json_variant_new_object a
      else sd_json_variant_new_array a
    json_variant_propagate_sensitive v n
    -- this will fail if there are multiple identical keys used, or floating point numbers
    Call.check n.flag_normalized Errno.ENOTUNIQ
    pure (n, 1)
termination_by v.size
decreasing_by exact Pointer.size_children v

/-- The loop over the elements. -/
def normalize_elements (l : List (Pointer R)) : Call Heap (List (Pointer R)) :=
  match l with
  | [] => pure []
  | v :: l => do
    let w ← normalize v
    let l ← normalize_elements l
    pure (w.1 :: l)
termination_by Pointer.size_list l
decreasing_by all_goals
  rw [Pointer.size_list_cons]
  omega
end

/-- `sd_json_variant_normalize` -/
def sd_json_variant_normalize : Call (Slot R) Nat := do
  let s ← Call.get
  let w ← on_heap (normalize q s.v)
  json_variant_unref_and_replace w.1
  pure w.2

end SdCompat.Json.Kept
