import SdCompat.Basic.HashmapResize

/-! # Looking for a key (hashmap.c)

    `base_bucket_scan` goes from the initial bucket of a key to the next ones,
    and gives up where an entry is nearer to its own initial bucket than the key
    would be: behind it there is no entry with this key.
-/

namespace SdCompat.Hashmap

open Probing Nat

section scan
variable {ops : HashOps} {h : HashmapBase} {l : List Nat} {key : Ptr} {i d : Nat}

variable (ops h l key) in
/-- The index of an entry with this key, or `IDX_NIL` if there is none. -/
def Finds (idx : Nat) : Prop :=
  idx ∈ l ∧ ops.compare (h.item idx).1 key = true ∨
  idx = IDX_NIL ∧ ∀ i ∈ l, ops.compare (h.item i).1 key = false

section
variable (hv : Valid ops h l)
include hv

theorem Valid.placed (hi : i ∈ l) : Placed h i :=
  ⟨(hv.used i (hv.mem_lt hi)).mp hi, hv.rehashed i (hv.mem_lt hi)⟩

/-- Behind a bucket that is light enough for an entry to take it, there is no
    entry that is as far from this initial bucket. -/
theorem Valid.near_of_light (hi : i ∈ l)
    (hlight : weight ops h (along h.n (home ops h i) d) ≤ d) : dist h.n i (home ops h i) < d := by
  by_contra hfar
  have hlt := hv.mem_lt hi
  have hstep := hv.probed.along (along_lt (hv.home_lt i) : along h.n (home ops h i) d < h.n)
    (dist h.n i (home ops h i) - d)
  have hat : along h.n (along h.n (home ops h i) d) (dist h.n i (home ops h i) - d) = i := by
    conv_rhs => rw [← along_dist hlt (hv.home_lt i)]
    unfold along
    rw [mod_add_mod, Nat.add_assoc, Nat.add_sub_cancel' (not_lt.mp hfar)]
  rw [hat, weight_placed ops (hv.placed hi)] at hstep
  omega

end

variable (hcompat : ∀ p q, ops.compare p q = true → ops.hash h.hash_key p = ops.hash h.hash_key q)
include hcompat

theorem home_of_compare (hkey : ops.compare (h.item i).1 key = true) :
    home ops h i = bucket_hash ops h key := by
  unfold home bucket_hash
  rw [hcompat _ _ hkey]

variable (hv : Valid ops h l)
include hv

/-- The entries with this key are not among the buckets that have been passed. -/
theorem bucket_scan_loop_finds (key : Ptr) (fuel : Nat) (hfuel : d + fuel = h.n + 1) (hd : d ≤ h.n)
    (hpassed : ∀ i ∈ l, ops.compare (h.item i).1 key = true → d ≤ dist h.n i (home ops h i)) :
    ∃ idx, bucket_scan_loop ops h key fuel (along h.n (bucket_hash ops h key) d) d = .ok idx ∧
      Finds ops h l key idx := by
  have hstart : bucket_hash ops h key < h.n := bucket_hash_lt hv.pos
  induction fuel generalizing d with
  | zero => omega
  | succ fuel ih =>
    have hlt : along h.n (bucket_hash ops h key) d < h.n := along_lt hstart
    have hnone : weight ops h (along h.n (bucket_hash ops h key) d) ≤ d →
        Finds ops h l key IDX_NIL := by
      intro hlight
      refine .inr ⟨rfl, ?_⟩
      intro i hi
      by_contra hkey
      rw [Bool.not_eq_false] at hkey
      rw [← home_of_compare hcompat hkey] at hlight
      exact absurd (hpassed i hi hkey) (not_le.mpr (hv.near_of_light hi hlight))
    unfold bucket_scan_loop
    split
    · next hfree =>
      refine ⟨IDX_NIL, rfl, hnone ?_⟩
      rw [weight_not_placed ops (not_placed.mpr (.inl hfree))]
      exact zero_le d
    · next hused =>
      have hmem := (hv.used _ hlt).mpr hused
      have hplaced := hv.placed hmem
      rw [hv.calculate_dib hlt hplaced]
      dsimp only
      split
      · next hless =>
        refine ⟨IDX_NIL, rfl, hnone ?_⟩
        rw [weight_placed ops hplaced]
        exact hless
      · next hnear =>
        split
        · next hkey => exact ⟨_, rfl, .inl ⟨hmem, hkey.2⟩⟩
        · next hkey =>
          have hdist := hv.dist_lt hlt
          change ∃ idx, bucket_scan_loop ops h key fuel (next h.n (along h.n _ d)) (d + 1) = _ ∧ _
          rw [next_along]
          refine ih (by omega) (by omega) ?_
          intro i hi hmatch
          refine lt_of_le_of_ne (hpassed i hi hmatch) ?_
          rintro rfl
          -- the entry that is as far from its initial bucket is the one here
          have hhome := home_of_compare hcompat hmatch
          have hat := along_dist (hv.mem_lt hi) (hv.home_lt i)
          rw [hhome] at hat hkey
          rw [hat, hhome] at hkey
          exact hkey ⟨rfl, hmatch⟩
end scan

/-- **A key is found if and only if it is there**, in any table at rest, however
    far its entry has been moved from its initial bucket. -/
theorem bucket_scan_finds {ops : HashOps} {h : HashmapBase} {items : List (Ptr × Ptr)} (key : Ptr)
    (hcompat : ∀ p q, ops.compare p q = true → ops.hash h.hash_key p = ops.hash h.hash_key q)
    (hrep : Represents ops h items) :
    ∃ idx, bucket_scan ops h (bucket_hash ops h key) key = .ok idx ∧
      (idx < h.n ∧ h.item idx ∈ items ∧ ops.compare (h.item idx).1 key = true ∨
        idx = IDX_NIL ∧ ∀ p ∈ items, ops.compare p.1 key = false) := by
  obtain ⟨l, hv, rfl⟩ := hrep
  have hstart : bucket_hash ops h key < h.n := bucket_hash_lt hv.pos
  obtain ⟨idx, hok, hfinds⟩ := bucket_scan_loop_finds (d := 0) hcompat hv key (h.n + 1)
    (by omega) (by omega) (fun i _ _ => zero_le _)
  rw [along_zero hstart] at hok
  refine ⟨idx, ?_, ?_⟩
  · unfold bucket_scan
    rw [if_neg (not_not.mpr hstart), hok]
  · rcases hfinds with ⟨hi, hkey⟩ | ⟨hnil, hall⟩
    · exact .inl ⟨hv.mem_lt hi, List.mem_map_of_mem hi, hkey⟩
    · exact .inr ⟨hnil, by simpa using hall⟩

theorem bucket_scan_finds_one :
    ∃ idx, bucket_scan sum_ops one_entry (bucket_hash sum_ops one_entry 5) 5 = .ok idx ∧
      (idx < one_entry.n ∧ one_entry.item idx ∈ [(5, 50)] ∧
        sum_ops.compare (one_entry.item idx).1 5 = true ∨
        idx = IDX_NIL ∧ ∀ p ∈ [((5 : Ptr), (50 : Ptr))], sum_ops.compare p.1 5 = false) :=
  bucket_scan_finds 5 (fun p q heq => by rw [of_decide_eq_true heq]) one_entry_represents

end SdCompat.Hashmap
