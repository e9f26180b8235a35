import SdCompat.Basic.HashmapTable

/-! # Putting an entry (hashmap.c)

    `hashmap_put_robin_hood` goes from one bucket to the next with an entry, and
    swaps it for each one that is nearer to its initial bucket, until it finds a
    bucket that is free, or one whose entry has to be rehashed.
-/

namespace SdCompat.Hashmap

open Probing IndexList List Function Nat Outcome

section put
variable {ops : HashOps} {h h' : HashmapBase} {l l' : List Nat} {i idx d k distance fuel : Nat}

/-! ## Section 1: A bucket is taken -/

/-- An entry is placed in a bucket, where it is as far from its initial bucket as
    the bucket before allows, and at least as far as the one that it displaces. -/
theorem Tidy.place (ht : Tidy ops h l) (hidx : idx < h.n) (hsame : SameTable h h')
    (hl' : Listed h' l') (hmem : ∀ i ∈ l', i < h.n ∨ i = IDX_PUT) (hidxmem : idx ∈ l')
    (hused : ∀ i < h.n, i ≠ idx → (i ∈ l' ↔ i ∈ l)) (hdib : h'.dib = update h.dib idx (dib_raw d))
    (hitem : ∀ i < h.n, i ≠ idx → h'.item i = h.item i)
    (hd : d = dist h.n idx (home ops h' idx)) (hle : weight ops h idx ≤ d + 1)
    (hprev : d ≤ weight ops h (prev h.n idx)) (hlow : h.has_indirect = true →
      h'.idx_lowest_entry ≤ h.idx_lowest_entry ∧ h'.idx_lowest_entry ≤ idx) : Tidy ops h' l' ∧
      ∀ i < h.n, weight ops h' i = update (weight ops h) idx (d + 1) i := by
  have hn := hsame.n
  have hhome : home ops h' idx < h.n := by
    rw [← hn]
    exact bucket_hash_lt (hn.symm ▸ ht.pos)
  have hdlt : d < h.n := hd ▸ Probing.dist_lt hidx hhome
  obtain ⟨hnotfree, hnotmark, -⟩ := dib_raw_placed (ht.ne_dib_free hdlt)
  have hdib_idx : h'.dib idx = dib_raw d := by rw [hdib, update_self]
  have hdib_ne : ∀ i, i ≠ idx → h'.dib i = h.dib i := fun i hne => by
    rw [hdib, update_of_ne hne]
  have hhome_ne : ∀ i < h.n, i ≠ idx → home ops h' i = home ops h i := by
    intro i hi hne
    unfold home
    rw [hitem i hi hne, hsame.bucket_hash]
  have hplaced : Placed h' idx := by
    unfold Placed
    rw [hdib_idx]
    exact ⟨hnotfree, hnotmark⟩
  have hplaced_ne : ∀ i, i ≠ idx → (Placed h' i ↔ Placed h i) := by
    intro i hne
    unfold Placed
    rw [hdib_ne i hne]
  have hweight : ∀ i < h.n, weight ops h' i = update (weight ops h) idx (d + 1) i := by
    intro i hi
    by_cases hne : i = idx
    · rw [hne, update_self, weight_placed ops hplaced, hn, ← hd]
    · rw [update_of_ne hne]
      unfold weight
      rw [hn, hhome_ne i hi hne]
      by_cases hp : Placed h i
      · rw [if_pos hp, if_pos ((hplaced_ne i hne).mpr hp)]
      · rw [if_neg hp, if_neg (mt (hplaced_ne i hne).mp hp)]
  refine ⟨⟨hl', hn.symm ▸ ht.pos, hn.symm ▸ ht.small, hn.symm ▸ hmem, ?_, ?_, ?_, ?_⟩, hweight⟩
  · rw [hn]
    intro i hi
    by_cases hne : i = idx
    · rw [hne, hdib_idx]
      exact ⟨fun _ => hnotfree, fun _ => hidxmem⟩
    · rw [hused i hi hne, hdib_ne i hne]
      exact ht.used i hi
  · rw [hn]
    intro i hi hp
    by_cases hne : i = idx
    · rw [hne, hdib_idx, ← hd]
    · rw [hdib_ne i hne, hhome_ne i hi hne]
      exact ht.raw i hi ((hplaced_ne i hne).mp hp)
  · rw [hn]
    exact (ht.probed.raise hidx hle (succ_le_succ hprev)).congr hweight
  · rw [hn, hsame.counts]
    intro hindirect i hi hfree
    obtain ⟨hless, hat⟩ := hlow hindirect
    by_cases hne : i = idx
    · rw [hne]
      exact hat
    · rw [hdib_ne i hne] at hfree
      exact hless.trans (ht.lowest hindirect i hi hfree)

/-- The bytes and `idx_lowest_entry` are written. -/
def remark (h : HashmapBase) (dib : Nat → UInt8) (lowest : Nat) : HashmapBase :=
  { h with dib := dib, idx_lowest_entry := lowest }

/-- Moving an entry does not depend on them. -/
theorem remark_move (dib : Nat → UInt8) (lowest src dst : Nat) :
    (remark h dib lowest).move src dst = remark (h.move src dst) dib lowest := by
  unfold HashmapBase.move relink set_previous set_next set_bucket remark
  dsimp only
  split_ifs <;> rfl

theorem remark_swapped (dib : Nat → UInt8) (lowest : Nat) :
    (remark h dib lowest).swapped idx = remark (h.swapped idx) dib lowest := by
  unfold HashmapBase.swapped
  rw [remark_move, remark_move, remark_move]

variable (h idx) in
/-- `idx_lowest_entry`, when an entry is put into this bucket. -/
def lowest_with : Nat :=
  if h.has_indirect ∧ idx < h.idx_lowest_entry then idx else h.idx_lowest_entry

theorem mark_eq : bucket_set_dib (lower_lowest h idx) idx d =
    remark h (update h.dib idx (dib_raw d)) (lowest_with h idx) := by
  unfold bucket_set_dib lower_lowest lowest_with remark
  split
  · rfl
  · rfl

theorem lowest_with_le (hindirect : h.has_indirect = true) :
    lowest_with h idx ≤ h.idx_lowest_entry ∧ lowest_with h idx ≤ idx := by
  unfold lowest_with
  split
  · next hlt => exact ⟨le_of_lt hlt.2, le_refl _⟩
  · next hge =>
    refine ⟨le_refl _, ?_⟩
    by_contra hlt
    exact hge ⟨hindirect, not_le.mp hlt⟩

theorem Listed.remark (hl : Listed h l) (dib : Nat → UInt8) (lowest : Nat) :
    Listed (remark h dib lowest) l := hl.congr rfl rfl rfl rfl

/-! ## Section 2: The entry that is carried -/

variable (ops h idx distance) in
/-- The entry in `IDX_PUT` may be placed in this bucket: it is at this distance
    from its initial one. -/
structure Carries : Prop where
  lt : idx < h.n
  start : distance = dist h.n idx (home ops h IDX_PUT)
  le : distance ≤ weight ops h (prev h.n idx)

theorem Tidy.distance_lt (ht : Tidy ops h l) (hc : Carries ops h idx distance) : distance < h.n :=
  hc.start ▸ Probing.dist_lt hc.lt (ht.home_lt IDX_PUT)

variable (h idx distance) in
/-- The entry in `IDX_PUT` has got a bucket that was free. -/
def taken : HashmapBase :=
  remark (h.move IDX_PUT idx) (update h.dib idx (dib_raw distance)) (lowest_with h idx)

theorem taken_same : SameTable h (taken h idx distance) := by
  obtain ⟨hsame, -, -⟩ := move_same h IDX_PUT idx
  exact ⟨hsame.counts, hsame.hash_key⟩

theorem taken_item : (taken h idx distance).item i = if i = idx then h.item IDX_PUT else h.item i :=
  move_item

theorem taken_tidy (ht : Tidy ops h l) (hput : IDX_PUT ∈ l) (hc : Carries ops h idx distance)
    (hfree : h.dib idx = DIB_RAW_FREE) :
    Tidy ops (taken h idx distance) (l.map (moved IDX_PUT idx)) ∧
      ∀ i < h.n, weight ops (taken h idx distance) i =
        update (weight ops h) idx (distance + 1) i := by
  obtain ⟨hneput, -, -, hnenil⟩ := ht.ne_swap hc.lt
  have hidx : idx ∉ l := fun hmem => (ht.used idx hc.lt).mp hmem hfree
  have hmem : ∀ i, i ∈ l.map (moved IDX_PUT idx) ↔ i = idx ∨ i ∈ l ∧ i ≠ IDX_PUT :=
    fun i => mem_map_moved hput hidx
  refine ht.place hc.lt taken_same ((ht.listed.move hput hidx hnenil).remark _ _) ?_
    ((hmem idx).mpr (.inl rfl)) ?_ rfl ?_ ?_ ?_ hc.le lowest_with_le
  · intro i hi
    rcases (hmem i).mp hi with rfl | ⟨hi, -⟩
    · exact .inl hc.lt
    · exact ht.mem i hi
  · intro i hi hne
    rw [hmem]
    constructor
    · rintro (heq | ⟨hil, -⟩)
      · exact absurd heq hne
      · exact hil
    · intro hil
      exact .inr ⟨hil, (ht.ne_swap hi).1⟩
  · intro i hi hne
    rw [taken_item, if_neg hne]
  · rw [hc.start]
    unfold home
    rw [taken_item, if_pos rfl, taken_same.bucket_hash]
  · rw [weight_not_placed ops (not_placed.mpr (.inl hfree))]
    exact zero_le _

variable (h idx distance) in
/-- It has been swapped for the entry of a bucket. -/
def displaced (lowest : Nat) : HashmapBase :=
  remark (h.swapped idx) (update h.dib idx (dib_raw distance)) lowest

theorem displaced_same (h : HashmapBase) (idx distance lowest : Nat) : SameTable h (displaced h idx distance lowest) := by
  obtain ⟨hsame, -, -⟩ := swapped_same h idx
  exact ⟨hsame.counts, hsame.hash_key⟩

theorem displaced_item (lowest : Nat) (htmp : idx ≠ IDX_TMP) (hi : i ≠ IDX_TMP) :
    (displaced h idx distance lowest).item i =
      if i = IDX_PUT then h.item idx else if i = idx then h.item IDX_PUT else h.item i :=
  swapped_item htmp hi

section
variable (ht : Tidy ops h l)
include ht

theorem displaced_tidy (hput : IDX_PUT ∈ l) (hc : Carries ops h idx distance)
    (hfree : h.dib idx ≠ DIB_RAW_FREE) (hle : weight ops h idx ≤ distance + 1) {lowest : Nat}
    (hlow : h.has_indirect = true → lowest ≤ h.idx_lowest_entry ∧ lowest ≤ idx) :
    ∃ l', (∀ i, i ∈ l' ↔ i ∈ l) ∧ l'.map (displaced h idx distance lowest).item = l.map h.item ∧
      Tidy ops (displaced h idx distance lowest) l' ∧
      ∀ i < h.n, weight ops (displaced h idx distance lowest) i =
        update (weight ops h) idx (distance + 1) i := by
  obtain ⟨hneput, hnetmp, -, -⟩ := ht.ne_swap hc.lt
  have hidx : idx ∈ l := (ht.used idx hc.lt).mpr hfree
  obtain ⟨l', hl', hmem, hitems⟩ := ht.listed.swapped hidx hput ht.tmp_not_mem hneput
  have hne_tmp : ∀ i < h.n, i ≠ IDX_TMP := fun i hi => (ht.ne_swap hi).2.1
  refine ⟨l', hmem, hitems, ht.place hc.lt (displaced_same h idx distance lowest) (hl'.remark _ _) ?_
    ((hmem idx).mpr hidx) (fun i _ _ => hmem i) rfl ?_ ?_ hle hc.le hlow⟩
  · intro i hi
    exact ht.mem i ((hmem i).mp hi)
  · intro i hi hne
    rw [displaced_item lowest hnetmp (hne_tmp i hi), if_neg (ht.ne_swap hi).1, if_neg hne]
  · rw [hc.start]
    unfold home
    rw [displaced_item lowest hnetmp hnetmp, if_neg hneput, if_pos rfl,
      (displaced_same h idx _ lowest).bucket_hash]

/-! ## Section 3: The loop -/

variable (ops h l idx k) in
/-- The entries after the loop, that has gone over `k` buckets at most. -/
structure Put (h' : HashmapBase) (rehash_next : Bool) (l' : List Nat) : Prop where
  tidy : Tidy ops h' l'
  same : SameTable h h'
  items : l'.map h'.item = l.map h.item
  put : IDX_PUT ∈ l' ↔ rehash_next = true
  pending : pending h = if rehash_next then h'.item IDX_PUT ::ₘ Hashmap.pending h'
    else Hashmap.pending h'
  marks : ∀ i < h.n, h'.dib i = DIB_RAW_REHASH → h.dib i = DIB_RAW_REHASH
  others : ∀ i < h.n, (∀ j ≤ k, i ≠ along h.n idx j) → weight ops h' i = weight ops h i

/-- A bucket that is placed has no mark. -/
theorem unmarked (hc : Carries ops h idx distance)
    (hmark : update h.dib idx (dib_raw distance) i = DIB_RAW_REHASH) :
    h.dib i = DIB_RAW_REHASH ∧ i ≠ idx := by
  by_cases hne : i = idx
  · obtain ⟨-, hnotmark, -⟩ := dib_raw_placed (ht.ne_dib_free (ht.distance_lt hc))
    rw [hne, update_self] at hmark
    exact absurd hmark hnotmark
  · rw [update_of_ne hne] at hmark
    exact ⟨hmark, hne⟩

/-- The loop ends in a bucket that is free. -/
theorem put_free (hput : IDX_PUT ∈ l) (hc : Carries ops h idx distance)
    (hfree : h.dib idx = DIB_RAW_FREE) :
    ∃ h' b l', put_robin_hood_loop ops (fuel + 1) h idx distance = .ok (h', b) ∧
      Put ops h l idx k h' b l' ∧ weight ops h' idx = distance + 1 := by
  obtain ⟨hneput, -, -, -⟩ := ht.ne_swap hc.lt
  have hidx : idx ∉ l := fun hmem => (ht.used idx hc.lt).mp hmem hfree
  obtain ⟨htidy, hweight⟩ := taken_tidy ht hput hc hfree
  refine ⟨taken h idx distance, false, _, ?_, ⟨htidy, taken_same, move_items hidx, ?_, ?_,
    fun i _ hmark => (unmarked ht hc hmark).1, ?_⟩, ?_⟩
  · unfold put_robin_hood_loop bucket_move_entry
    dsimp only
    rw [hfree, if_pos (.inl rfl), if_neg (by decide), ok_bind, if_neg hneput.symm, mark_eq,
      remark_move, ok_bind, if_neg (by decide)]
    rfl
  · rw [mem_map_moved hput hidx]
    constructor
    · rintro (heq | ⟨-, hne⟩)
      · exact absurd heq.symm hneput
      · exact absurd rfl hne
    · intro hfalse
      cases hfalse
  · refine (pending_congr taken_same.n ?_ ?_).symm
    · intro i hi
      refine ⟨fun hmark => (unmarked ht hc hmark).1, fun hmark => ?_⟩
      have hne : i ≠ idx := by
        rintro rfl
        rw [hfree] at hmark
        exact absurd hmark (by decide)
      exact (update_of_ne hne ..).trans hmark
    · intro i hi hmark
      rw [taken_item, if_neg]
      rintro rfl
      rw [hfree] at hmark
      exact absurd hmark (by decide)
  · intro i hi hpath
    have hne : i ≠ idx := by
      have hzero := hpath 0 (zero_le _)
      rwa [along_zero hc.lt] at hzero
    rw [hweight i hi, update_of_ne hne]
  · rw [hweight idx hc.lt, update_self]

/-- Or in one whose entry has to be rehashed. -/
theorem put_rehash (hput : IDX_PUT ∈ l) (hc : Carries ops h idx distance)
    (hmark : h.dib idx = DIB_RAW_REHASH) :
    ∃ h' b l', put_robin_hood_loop ops (fuel + 1) h idx distance = .ok (h', b) ∧
      Put ops h l idx k h' b l' ∧ weight ops h' idx = distance + 1 := by
  obtain ⟨hneput, hnetmp, -, -⟩ := ht.ne_swap hc.lt
  have hfree : h.dib idx ≠ DIB_RAW_FREE := by
    rw [hmark]
    decide
  have hle : weight ops h idx ≤ distance + 1 := by
    rw [weight_not_placed ops (not_placed.mpr (.inr hmark))]
    exact zero_le _
  obtain ⟨l', hmem, hitems, htidy, hweight⟩ := displaced_tidy ht hput hc hfree hle lowest_with_le
  refine ⟨displaced h idx distance (lowest_with h idx), true, l', ?_,
    ⟨htidy, displaced_same h idx distance _, hitems, ?_, ?_, fun i _ hmark => (unmarked ht hc hmark).1, ?_⟩, ?_⟩
  · obtain ⟨hsame, hdib, hlowest⟩ := move_same h idx IDX_TMP
    have hwith : lowest_with (h.move idx IDX_TMP) idx = lowest_with h idx := by
      unfold lowest_with
      rw [hsame.counts, hlowest]
    unfold put_robin_hood_loop bucket_move_entry
    dsimp only
    rw [hmark, if_pos (.inr rfl), if_pos rfl, if_neg hnetmp, ok_bind, if_neg hneput.symm,
      mark_eq, hdib, hwith, remark_move, ok_bind, if_pos rfl, if_neg (by decide),
      remark_move, ok_bind]
    rfl
  · rw [hmem]
    exact ⟨fun _ => rfl, fun _ => hput⟩
  · rw [displaced_item _ hnetmp (by decide), if_pos rfl]
    refine pending_take (displaced_same h idx distance _).n hc.lt hmark ?_ ?_
    · intro i hi
      refine ⟨unmarked ht hc, fun ⟨hmark, hne⟩ => ?_⟩
      exact (update_of_ne hne ..).trans hmark
    · intro i hi _ hne
      obtain ⟨hiput, hitmp, -, -⟩ := ht.ne_swap hi
      rw [displaced_item _ hnetmp hitmp, if_neg hiput, if_neg hne]
  · intro i hi hpath
    have hne : i ≠ idx := by
      have hzero := hpath 0 (zero_le _)
      rwa [along_zero hc.lt] at hzero
    rw [hweight i hi, update_of_ne hne]
  · rw [hweight idx hc.lt, update_self]

/-- The entry of a bucket that is placed may go on to the next one, if a bucket is
    to be had within a round. -/
theorem carries_next (hidx : idx < h.n) (hk : k + 1 < h.n)
    (havail : ¬ Placed h (along h.n idx (k + 1))) : weight ops h idx + 1 ≤ h.n := by
  have hlt := along_lt hidx (j := k + 1)
  -- from that bucket on, the weight grows from 0 to here
  have hgrow := ht.probed.along hlt (h.n - (k + 1))
  have hback : along h.n (along h.n idx (k + 1)) (h.n - (k + 1)) = idx := by
    unfold along
    rw [Nat.mod_add_mod, Nat.add_assoc, Nat.add_sub_cancel' (Nat.le_of_lt hk), Nat.add_mod_right,
      Nat.mod_eq_of_lt hidx]
  rw [hback, weight_not_placed ops havail] at hgrow
  omega

/-- The loop ends where no entry is placed. -/
theorem put_here (hput : IDX_PUT ∈ l) (hc : Carries ops h idx distance) (hp : ¬ Placed h idx)
    (k fuel : Nat) : ∃ h' b l', put_robin_hood_loop ops (fuel + 1) h idx distance = .ok (h', b) ∧
      Put ops h l idx k h' b l' ∧ weight ops h' idx = distance + 1 := by
  rcases not_placed.mp hp with hfree | hmark
  · exact put_free ht hput hc hfree
  · exact put_rehash ht hput hc hmark

end

/-- A round of the loop, and what comes after it. -/
theorem Put.step {h₁ : HashmapBase} {l₁ : List Nat} {b : Bool} (hidx : idx < h.n)
    (hsame : SameTable h h₁) (hitems : l₁.map h₁.item = l.map h.item)
    (hpending : Hashmap.pending h₁ = Hashmap.pending h)
    (hmarks : ∀ i < h.n, h₁.dib i = DIB_RAW_REHASH → h.dib i = DIB_RAW_REHASH)
    (hothers : ∀ i < h.n, i ≠ idx → weight ops h₁ i = weight ops h i)
    (hdone : Put ops h₁ l₁ (next h.n idx) k h' b l') : Put ops h l idx (k + 1) h' b l' := by
  refine ⟨hdone.tidy, hsame.trans hdone.same, hdone.items.trans hitems, hdone.put,
    hpending.symm.trans hdone.pending,
    fun i hi hmark => hmarks i hi (hdone.marks i (hsame.n.symm ▸ hi) hmark), ?_⟩
  intro i hi hpath
  have hne : i ≠ idx := by
    have hzero := hpath 0 (zero_le _)
    rwa [along_zero hidx] at hzero
  rw [← hothers i hi hne]
  refine hdone.others i (hsame.n.symm ▸ hi) fun j hj => ?_
  rw [hsame.n, along_next]
  exact hpath (j + 1) (succ_le_succ hj)

section
variable (ht : Tidy ops h l)
include ht

/-- The loop goes on with the same entry. -/
theorem loop_go (hidx : idx < h.n) (hp : Placed h idx)
    (hge : distance ≤ dist h.n idx (home ops h idx)) :
    put_robin_hood_loop ops (fuel + 1) h idx distance =
      put_robin_hood_loop ops fuel h (next h.n idx) (distance + 1) := by
  have hmark : ¬ (h.dib idx = DIB_RAW_FREE ∨ h.dib idx = DIB_RAW_REHASH) :=
    fun hor => not_placed.mpr hor hp
  rw [put_robin_hood_loop]
  rw [if_neg hmark, ht.calculate_dib hidx hp, if_neg (not_lt.mpr hge)]
  rfl

theorem carries_go (hc : Carries ops h idx distance) (hp : Placed h idx)
    (hge : distance ≤ dist h.n idx (home ops h idx)) (hbound : weight ops h idx + 1 ≤ h.n) :
    Carries ops h (next h.n idx) (distance + 1) := by
  rw [weight_placed ops hp] at hbound
  refine ⟨next_lt hc.lt, ?_, ?_⟩
  · have hlt : dist h.n idx (home ops h IDX_PUT) + 1 < h.n := by
      rw [← hc.start]
      omega
    rw [dist_next hc.lt (ht.home_lt _) hlt, ← hc.start]
  · rw [prev_next hc.lt, weight_placed ops hp]
    omega

/-- The loop goes on with the entry of the bucket. -/
theorem loop_swap (hidx : idx < h.n) (hp : Placed h idx)
    (hlt : dist h.n idx (home ops h idx) < distance) :
    put_robin_hood_loop ops (fuel + 1) h idx distance =
      put_robin_hood_loop ops fuel (displaced h idx distance h.idx_lowest_entry) (next h.n idx)
        (dist h.n idx (home ops h idx) + 1) := by
  obtain ⟨hneput, hnetmp, -, -⟩ := ht.ne_swap hidx
  have hmark : ¬ (h.dib idx = DIB_RAW_FREE ∨ h.dib idx = DIB_RAW_REHASH) :=
    fun hor => not_placed.mpr hor hp
  have hswap : swap_put (bucket_set_dib h idx distance) idx =
      .ok (displaced h idx distance h.idx_lowest_entry) := by
    rw [swap_put_eq hneput hnetmp]
    exact congrArg ok (remark_swapped _ _)
  have hsame := displaced_same h idx distance h.idx_lowest_entry
  have hnext : next_idx (displaced h idx distance h.idx_lowest_entry) idx = next h.n idx :=
    congrArg (fun n => (idx + 1) % n) hsame.n
  rw [put_robin_hood_loop]
  rw [if_neg hmark, ht.calculate_dib hidx hp, if_pos hlt, hswap, ok_bind, hnext]

theorem carries_swap (hc : Carries ops h idx distance) (hp : Placed h idx)
    (hlt : dist h.n idx (home ops h idx) < distance) (hbound : weight ops h idx + 1 ≤ h.n)
    (hweight : weight ops (displaced h idx distance h.idx_lowest_entry) idx = distance + 1) :
    Carries ops (displaced h idx distance h.idx_lowest_entry) (next h.n idx)
      (dist h.n idx (home ops h idx) + 1) := by
  rw [weight_placed ops hp] at hbound
  obtain ⟨-, hnetmp, -, -⟩ := ht.ne_swap hc.lt
  have hsame := displaced_same h idx distance h.idx_lowest_entry
  refine ⟨hsame.n.symm ▸ next_lt hc.lt, ?_, ?_⟩
  · rw [hsame.n, ← dist_next hc.lt (ht.home_lt idx) (by omega)]
    unfold home
    rw [displaced_item _ hnetmp (by decide), if_pos rfl, hsame.bucket_hash]
  · rw [hsame.n, prev_next hc.lt]
    omega

/-- No entry that has to be rehashed has been swapped. -/
theorem displaced_pending (hc : Carries ops h idx distance) (hp : Placed h idx) (lowest : Nat) :
    pending (displaced h idx distance lowest) = pending h := by
  obtain ⟨-, hnetmp, -, -⟩ := ht.ne_swap hc.lt
  refine pending_congr (displaced_same h idx distance lowest).n ?_ ?_
  · intro i hi
    refine ⟨fun hmark => (unmarked ht hc hmark).1, fun hmark => ?_⟩
    have hne : i ≠ idx := by
      rintro rfl
      exact hp.2 hmark
    exact (update_of_ne hne ..).trans hmark
  · intro i hi hrehash
    obtain ⟨hiput, hitmp, -, -⟩ := ht.ne_swap hi
    have hne : i ≠ idx := by
      rintro rfl
      exact hp.2 hrehash
    rw [displaced_item _ hnetmp hitmp, if_neg hiput, if_neg hne]

end

/-- The loop ends in a bucket that is free or whose entry has to be rehashed, when
    there is one. -/
theorem put_loop (fuel : Nat) (ht : Tidy ops h l) (hput : IDX_PUT ∈ l) (hc : Carries ops h idx distance)
    (hk : k < h.n) (hfuel : k < fuel) (havail : ¬ Placed h (along h.n idx k)) :
    ∃ h' b l', put_robin_hood_loop ops fuel h idx distance = .ok (h', b) ∧
      Put ops h l idx k h' b l' := by
  induction k generalizing fuel h l idx distance with
  | zero =>
    obtain ⟨fuel, rfl⟩ := exists_eq_succ_of_ne_zero (ne_of_gt hfuel)
    rw [along_zero hc.lt] at havail
    obtain ⟨h', b, l', hok, hdone, -⟩ := put_here ht hput hc havail 0 fuel
    exact ⟨h', b, l', hok, hdone⟩
  | succ k ih =>
    obtain ⟨fuel, rfl⟩ := exists_eq_succ_of_ne_zero (ne_of_gt (zero_lt_of_lt hfuel))
    have hfuel := lt_of_succ_lt_succ hfuel
    by_cases hp : Placed h idx
    · have hbound := carries_next ht hc.lt hk havail
      by_cases hlt : dist h.n idx (home ops h idx) < distance
      · -- the entry of the bucket is wealthier
        have hlowest : h.has_indirect = true →
            h.idx_lowest_entry ≤ h.idx_lowest_entry ∧ h.idx_lowest_entry ≤ idx :=
          fun hindirect => ⟨le_refl _, ht.lowest hindirect idx hc.lt hp.1⟩
        have hle : weight ops h idx ≤ distance + 1 := by
          rw [weight_placed ops hp]
          omega
        obtain ⟨l1, hmem, hitems, ht1, hweights⟩ := displaced_tidy ht hput hc hp.1 hle hlowest
        have hsame := displaced_same h idx distance h.idx_lowest_entry
        have hc1 := carries_swap ht hc hp hlt hbound
          (by rw [hweights idx hc.lt, update_self])
        have hne : along h.n idx (k + 1) ≠ idx := by
          intro heq
          have hzero := along_inj hc.lt hk ht.pos (heq.trans (along_zero hc.lt).symm)
          exact absurd hzero (succ_ne_zero k)
        have havail1 : ¬ Placed (displaced h idx distance h.idx_lowest_entry)
            (along (displaced h idx distance h.idx_lowest_entry).n (next h.n idx) k) := by
          have hdib : (displaced h idx distance h.idx_lowest_entry).dib (along h.n idx (k + 1)) =
              h.dib (along h.n idx (k + 1)) := update_of_ne hne ..
          rw [hsame.n, along_next]
          unfold Placed at havail ⊢
          rwa [hdib]
        obtain ⟨h', b, l', hok, hdone⟩ := ih fuel ht1 ((hmem _).mpr hput) hc1
          (hsame.n.symm ▸ lt_of_succ_lt hk) hfuel havail1
        refine ⟨h', b, l', (loop_swap ht hc.lt hp hlt).trans hok,
          Put.step hc.lt hsame hitems (displaced_pending ht hc hp _)
            (fun i _ hmark => (unmarked ht hc hmark).1) ?_ hdone⟩
        intro i hi hne
        rw [hweights i hi, update_of_ne hne]
      · have hge := not_lt.mp hlt
        have havail1 : ¬ Placed h (along h.n (next h.n idx) k) := by rwa [along_next]
        obtain ⟨h', b, l', hok, hdone⟩ := ih fuel ht hput (carries_go ht hc hp hge hbound)
          (lt_of_succ_lt hk) hfuel havail1
        exact ⟨h', b, l', (loop_go ht hc.lt hp hge).trans hok,
          Put.step hc.lt (SameTable.refl h) rfl rfl (fun _ _ hmark => hmark) (fun _ _ _ => rfl)
            hdone⟩
    · obtain ⟨h', b, l', hok, hdone, -⟩ := put_here ht hput hc hp (k + 1) fuel
      exact ⟨h', b, l', hok, hdone⟩

/-! ## Section 4: The function -/

variable (ops h l) in
/-- What `hashmap_put_robin_hood` has done. -/
structure Rehashed (h' : HashmapBase) (rehash_next : Bool) (l' : List Nat) : Prop where
  tidy : Tidy ops h' l'
  same : SameTable h h'
  items : l'.map h'.item = l.map h.item
  put : IDX_PUT ∈ l' ↔ rehash_next = true
  pending : pending h = if rehash_next then h'.item IDX_PUT ::ₘ Hashmap.pending h'
    else Hashmap.pending h'
  marks : ∀ i < h.n, h'.dib i = DIB_RAW_REHASH → h.dib i = DIB_RAW_REHASH
  light : ∃ i < h.n, weight ops h' i ≤ 1

/-- The entry in `IDX_PUT` is put, when it starts at its initial bucket and there
    is a bucket for it. Some entry stays in its initial bucket. -/
theorem put_robin_hood (ht : Tidy ops h l) (hput : IDX_PUT ∈ l) (havail : ∃ i < h.n, ¬ Placed h i) :
    ∃ h' b l', hashmap_put_robin_hood ops h (home ops h IDX_PUT) = .ok (h', b) ∧
      Rehashed ops h l h' b l' := by
  have hhome := ht.home_lt IDX_PUT
  have hc : Carries ops h (home ops h IDX_PUT) 0 := ⟨hhome, dist_self.symm, zero_le _⟩
  obtain ⟨fuel, hfuel⟩ := exists_eq_succ_of_ne_zero (ne_of_gt ht.pos)
  unfold hashmap_put_robin_hood
  rw [hfuel]
  by_cases hp : Placed h (home ops h IDX_PUT)
  · obtain ⟨i, hi, havail⟩ := havail
    obtain ⟨k, hk, rfl⟩ := exists_along hi hhome
    obtain ⟨k, rfl⟩ : ∃ k', k = k' + 1 := by
      refine exists_eq_succ_of_ne_zero ?_
      rintro rfl
      rw [along_zero hhome] at havail
      exact havail hp
    have hbound := carries_next ht hhome hk havail
    have hc1 := carries_go ht hc hp (zero_le _) hbound
    have havail1 : ¬ Placed h (along h.n (next h.n (home ops h IDX_PUT)) k) := by rwa [along_next]
    obtain ⟨h', b, l', hok, hdone⟩ :=
      put_loop fuel ht hput hc1 (lt_of_succ_lt hk) (by omega) havail1
    refine ⟨h', b, l', (loop_go ht hhome hp (zero_le _)).trans hok, hdone.tidy, hdone.same,
      hdone.items, hdone.put, hdone.pending, hdone.marks, along h.n (home ops h IDX_PUT) (k + 2),
      along_lt hhome, ?_⟩
    -- the bucket behind the free one has not been touched
    rw [hdone.others _ (along_lt hhome)]
    · have hstep := ht.probed _ hi
      rwa [next_along, weight_not_placed ops havail] at hstep
    · intro j hj heq
      rw [along_next] at heq
      by_cases hround : k + 2 = h.n
      · rw [hround, along_self hhome] at heq
        have hzero := along_inj hhome ht.pos (by omega) ((along_zero hhome).trans heq)
        omega
      · have hsame := along_inj hhome (by omega) (by omega) heq
        omega
  · obtain ⟨h', b, l', hok, hdone, hw⟩ := put_here ht hput hc hp 0 fuel
    refine ⟨h', b, l', hok, hdone.tidy, hdone.same, hdone.items, hdone.put, hdone.pending,
      hdone.marks, home ops h IDX_PUT, hhome, ?_⟩
    omega

end put

end SdCompat.Hashmap
