import SdCompat.Basic.HashmapPut
import Mathlib.Data.Finset.Card

/-! # A table grows (hashmap.c)

    `resize_buckets` rehashes the entries where they are: the buckets of the old
    table are the first ones of the new table, and their entries have a mark until
    they have been rehashed. An entry that is rehashed may take the bucket of one
    that is not, which has to be rehashed next then.
-/

namespace SdCompat.Hashmap

open Probing IndexList Multiset List Function Nat

variable {ops : HashOps} {h h' : HashmapBase} {l l' : List Nat} {i idx fuel : Nat}
  {r rehashed : List (Ptr × Ptr)}

/-! ## Section 1: The table in its new storage -/

section grown
variable {m : UInt32} {hash_key : HashKey}

theorem grown_n : (grown h m hash_key).n = m.toNat := rfl

theorem grown_item (hi : i < h.n) : (grown h m hash_key).item i = h.item i := by
  have hnot : ¬ (h.n ≤ i ∧ i < m.toNat) := fun hc => absurd hi (not_lt.mpr hc.1)
  unfold HashmapBase.item grown
  dsimp only
  rw [if_neg hnot]

/-- The table has the same list. -/
theorem grown_listed (hv : Valid ops h l) : Listed (grown h m hash_key) l := by
  refine ⟨hv.listed.nil_not_mem, hv.listed.nodup, fun htype => ?_⟩
  have hbucket : ∀ i ∈ l, (grown h m hash_key).bucket i = h.bucket i := by
    intro i hi
    have hnot : ¬ (h.n ≤ i ∧ i < m.toNat) := fun hc => absurd (hv.mem_lt hi) (not_lt.mpr hc.1)
    exact if_neg hnot
  refine (hv.listed.linked htype).congr ?_ ?_
  · intro a ha
    unfold HashmapBase.next
    rw [hbucket a ha]
  · intro a ha
    unfold HashmapBase.prev
    rw [hbucket a ha]

/-- Every entry has to be rehashed. -/
theorem grown_tidy (hv : Valid ops h l) (hless : h.n < m.toNat) (hsmall : m.toNat < IDX_SWAP_BEGIN) :
    Tidy ops (grown h m hash_key) l := by
  have hplaced : ∀ i, ¬ Placed (grown h m hash_key) i := by
    intro i hp
    unfold Placed grown at hp
    dsimp only at hp
    split at hp
    · exact hp.2 rfl
    · exact hp.1 rfl
  have hfree : ∀ i, (grown h m hash_key).dib i ≠ DIB_RAW_FREE ↔ i < h.n ∧ h.dib i ≠ DIB_RAW_FREE := by
    intro i
    unfold grown
    dsimp only
    split
    · next hc => exact ⟨fun _ => hc, fun _ => by decide⟩
    · next hc => exact ⟨fun hne => absurd rfl hne, fun hand => absurd hand hc⟩
  refine ⟨grown_listed hv, zero_lt_of_lt hless, hsmall, ?_, ?_, ?_, ?_, ?_⟩
  · intro i hi
    exact .inl ((hv.mem_lt hi).trans hless)
  · intro i hi
    rw [hfree]
    constructor
    · intro hmem
      exact ⟨hv.mem_lt hmem, (hv.used i (hv.mem_lt hmem)).mp hmem⟩
    · rintro ⟨hlt, hne⟩
      exact (hv.used i hlt).mpr hne
  · intro i _ hp
    exact absurd hp (hplaced i)
  · intro i _
    rw [weight_not_placed ops (hplaced _)]
    exact zero_le _
  · intro _ i _ hne
    obtain ⟨hlt, hne⟩ := (hfree i).mp hne
    change (if h.has_indirect = true then h.idx_lowest_entry else 0) ≤ i
    split
    · next hindirect => exact hv.lowest hindirect i hlt hne
    · exact zero_le i

theorem grown_pending (hv : Valid ops h l) (hless : h.n < m.toNat) :
    pending (grown h m hash_key) = (l.map h.item : Multiset (Ptr × Ptr)) := by
  have hmark : ∀ i, (grown h m hash_key).dib i = DIB_RAW_REHASH ↔ i < h.n ∧ h.dib i ≠ DIB_RAW_FREE := by
    intro i
    unfold grown
    dsimp only
    split
    · next hc => exact ⟨fun _ => hc, fun _ => rfl⟩
    · next hc => exact ⟨fun heq => absurd heq (by decide), fun hand => absurd hand hc⟩
  have hset : ((Finset.range (grown h m hash_key).n).filter
      fun i => (grown h m hash_key).dib i = DIB_RAW_REHASH).val = (l : Multiset Nat) := by
    refine (Nodup.ext (Finset.nodup _) (coe_nodup.mpr hv.listed.nodup)).mpr ?_
    intro i
    rw [Finset.mem_val, Finset.mem_filter, Finset.mem_range, hmark, grown_n]
    constructor
    · rintro ⟨-, hlt, hne⟩
      exact (hv.used i hlt).mpr hne
    · intro hmem
      have hlt := hv.mem_lt hmem
      exact ⟨hlt.trans hless, hlt, (hv.used i hlt).mp hmem⟩
  unfold pending
  rw [hset, map_coe]
  congr 1
  exact map_congr_left fun i hi => grown_item (hv.mem_lt hi)

end grown

/-! ## Section 2: One entry after the other -/

/-- A short list does not have all indexes. -/
theorem exists_not_mem {n : Nat} (hless : l.length < n) : ∃ i < n, i ∉ l := by
  by_contra hnone
  have hsub : Finset.range n ⊆ l.toFinset := by
    intro i hi
    rw [List.mem_toFinset]
    by_contra hnot
    exact hnone ⟨i, Finset.mem_range.mp hi, hnot⟩
  have hcard := (Finset.card_le_card hsub).trans l.toFinset_card_le
  rw [Finset.card_range] at hcard
  exact absurd hless (not_lt.mpr hcard)

/-- With an entry in `IDX_PUT`, a bucket is free. -/
theorem exists_free (ht : Tidy ops h l) (hput : IDX_PUT ∈ l) (hle : l.length ≤ h.n) :
    ∃ i < h.n, ¬ Placed h i := by
  have hlength : (l.erase IDX_PUT).length < h.n := by
    rw [length_erase_of_mem hput]
    have hpos := length_pos_of_mem hput
    omega
  obtain ⟨i, hi, hnot⟩ := exists_not_mem hlength
  refine ⟨i, hi, fun hp => hnot ?_⟩
  rw [List.mem_erase_of_ne (ht.ne_swap hi).1]
  exact (ht.used i hi).mpr hp.1

/-- While the entries are being rehashed: none has been lost, and each one either
    has been rehashed once, or still has to be. -/
structure Rehashing (ops : HashOps) (h₀ : HashmapBase) (items : List (Ptr × Ptr)) (h : HashmapBase)
    (l : List Nat) : Prop where
  tidy : Tidy ops h l
  same : SameTable h₀ h
  enough : items.length ≤ h.n
  items : l.map h.item = items

section rehash
variable {h₀ : HashmapBase} {items : List (Ptr × Ptr)}

/-- The entry in `IDX_PUT` is rehashed, and those that are displaced. -/
theorem rehash_put_ok (hr : Rehashing ops h₀ items h l) (hput : IDX_PUT ∈ l)
    (hfuel : (pending h).card < fuel) :
    ∃ h' l' r', rehash_put ops fuel h (home ops h IDX_PUT) r = .ok (h', r') ∧
      Rehashing ops h₀ items h' l' ∧ IDX_PUT ∉ l' ∧
      (r' : Multiset (Ptr × Ptr)) + pending h' = r + (h.item IDX_PUT ::ₘ pending h) ∧
      ∀ i < h.n, h'.dib i = DIB_RAW_REHASH → h.dib i = DIB_RAW_REHASH := by
  induction fuel generalizing h l r with
  | zero => exact absurd hfuel (not_lt_zero _)
  | succ fuel ih =>
    have hle : l.length ≤ h.n := by
      have henough := hr.enough
      rwa [← hr.items, length_map] at henough
    obtain ⟨h1, b, l1, hok, hdone⟩ := put_robin_hood hr.tidy hput (exists_free hr.tidy hput hle)
    have hr1 : Rehashing ops h₀ items h1 l1 :=
      ⟨hdone.tidy, hr.same.trans hdone.same, hdone.same.n.symm ▸ hr.enough,
        hdone.items.trans hr.items⟩
    have hlog : ((r ++ [h.item IDX_PUT] : List (Ptr × Ptr)) : Multiset (Ptr × Ptr)) =
        r + {h.item IDX_PUT} := by
      rfl
    unfold rehash_put
    rw [hok]
    cases b with
    | false =>
      refine ⟨h1, l1, _, rfl, hr1, fun hmem => ?_, ?_, hdone.marks⟩
      · exact absurd (hdone.put.mp hmem) (by decide)
      · have hpending := hdone.pending
        rw [if_neg (by decide)] at hpending
        change ((r ++ [h.item IDX_PUT] : List (Ptr × Ptr)) : Multiset (Ptr × Ptr)) + pending h1 = _
        rw [hlog, ← hpending, Multiset.add_assoc, Multiset.singleton_add]
    | true =>
      have hpending := hdone.pending
      rw [if_pos rfl] at hpending
      have hcard : (pending h1).card < fuel := by
        rw [hpending, card_cons] at hfuel
        omega
      obtain ⟨h', l', r', hok', hr', hnot, hlog', hmarks⟩ :=
        ih (r := r ++ [h.item IDX_PUT]) hr1 (hdone.put.mpr rfl) hcard
      refine ⟨h', l', r', hok', hr', hnot, ?_, ?_⟩
      · rw [hlog', hlog, hpending, Multiset.add_assoc, Multiset.singleton_add]
      · intro i hi hmark
        exact hdone.marks i hi (hmarks i (hdone.same.n.symm ▸ hi) hmark)

/-- The entry of a bucket has been taken out to be rehashed. -/
def lifted (h : HashmapBase) (idx : Nat) : HashmapBase :=
  set_bucket ({ h with dib := Function.update h.dib idx DIB_RAW_FREE }.move idx IDX_PUT) idx zero_entry

theorem lifted_same : SameTable h (lifted h idx) := by
  obtain ⟨hsame, -, -⟩ := move_same { h with dib := update h.dib idx DIB_RAW_FREE } idx IDX_PUT
  exact ⟨hsame.counts, hsame.hash_key⟩

theorem lifted_dib : (lifted h idx).dib = Function.update h.dib idx DIB_RAW_FREE := by
  obtain ⟨-, hdib, -⟩ := move_same { h with dib := update h.dib idx DIB_RAW_FREE } idx IDX_PUT
  exact hdib

theorem lifted_item (hne : i ≠ idx) :
    (lifted h idx).item i = if i = IDX_PUT then h.item idx else h.item i := by
  have hset : (lifted h idx).item i =
      ({ h with dib := update h.dib idx DIB_RAW_FREE }.move idx IDX_PUT).item i :=
    congrArg Entry.item (set_bucket_of_ne hne)
  rw [hset, move_item]
  rfl

theorem lifted_tidy (ht : Tidy ops h l) (hnot : IDX_PUT ∉ l) (hidx : idx < h.n)
    (hmark : h.dib idx = DIB_RAW_REHASH) : Tidy ops (lifted h idx) (l.map (moved idx IDX_PUT)) := by
  have hmem : idx ∈ l := (ht.used idx hidx).mpr (by rw [hmark]; decide)
  have hiff : ∀ i, i ∈ l.map (moved idx IDX_PUT) ↔ i = IDX_PUT ∨ i ∈ l ∧ i ≠ idx :=
    fun i => mem_map_moved hmem hnot
  obtain ⟨hneput, -, -, -⟩ := ht.ne_swap hidx
  have hdib_ne : ∀ i, i ≠ idx → (lifted h idx).dib i = h.dib i := by
    intro i hne
    rw [lifted_dib, update_of_ne hne]
  have hdib_idx : (lifted h idx).dib idx = DIB_RAW_FREE := by
    rw [lifted_dib, update_self]
  have hplaced : ∀ i, Placed (lifted h idx) i ↔ Placed h i := by
    intro i
    unfold Placed
    by_cases hne : i = idx
    · rw [hne, hdib_idx, hmark]
      exact ⟨fun hp => absurd rfl hp.1, fun hp => absurd rfl hp.2⟩
    · rw [hdib_ne i hne]
  have hhome : ∀ i < h.n, i ≠ idx → home ops (lifted h idx) i = home ops h i := by
    intro i hi hne
    unfold home
    rw [lifted_item hne, if_neg (ht.ne_swap hi).1, lifted_same.bucket_hash]
  have hunplaced : ¬ Placed h idx := not_placed.mpr (.inr hmark)
  refine ⟨?_, ?_, ?_, ?_, ?_, ?_, ?_, ?_⟩
  · have hl : Listed { h with dib := update h.dib idx DIB_RAW_FREE } l :=
      ht.listed.congr rfl rfl rfl rfl
    have hl1 := hl.move hmem hnot (by decide)
    refine ⟨hl1.nil_not_mem, hl1.nodup, fun htype => ?_⟩
    have hne : ∀ a ∈ l.map (moved idx IDX_PUT), a ≠ idx := by
      intro a ha
      rcases (hiff a).mp ha with rfl | ⟨-, hne⟩
      · exact hneput.symm
      · exact hne
    refine (hl1.linked htype).congr ?_ ?_
    · intro a ha
      exact congrArg Entry.iterate_next (set_bucket_of_ne (hne a ha))
    · intro a ha
      exact congrArg Entry.iterate_previous (set_bucket_of_ne (hne a ha))
  · exact lifted_same.n.symm ▸ ht.pos
  · exact lifted_same.n.symm ▸ ht.small
  · rw [lifted_same.n]
    intro i hi
    rcases (hiff i).mp hi with rfl | ⟨hi, -⟩
    · exact .inr rfl
    · exact ht.mem i hi
  · rw [lifted_same.n]
    intro i hi
    rw [hiff]
    by_cases hne : i = idx
    · rw [hne, hdib_idx]
      exact ⟨fun hor => absurd rfl (hor.resolve_left hneput).2, fun hf => absurd rfl hf⟩
    · rw [hdib_ne i hne, ← ht.used i hi]
      exact ⟨fun hor => (hor.resolve_left (ht.ne_swap hi).1).1, fun hil => .inr ⟨hil, hne⟩⟩
  · rw [lifted_same.n]
    intro i hi hp
    have hne : i ≠ idx := fun heq => hunplaced (heq ▸ (hplaced i).mp hp)
    rw [hdib_ne i hne, hhome i hi hne]
    exact ht.raw i hi ((hplaced i).mp hp)
  · rw [lifted_same.n]
    refine ht.probed.congr fun i hi => ?_
    unfold weight
    by_cases hp : Placed h i
    · have hne : i ≠ idx := fun heq => hunplaced (heq ▸ hp)
      rw [if_pos hp, if_pos ((hplaced i).mpr hp), lifted_same.n, hhome i hi hne]
    · rw [if_neg hp, if_neg (mt (hplaced i).mp hp)]
  · rw [lifted_same.n, lifted_same.counts]
    intro hindirect i hi hfree
    obtain ⟨-, -, hlowest⟩ := move_same { h with dib := update h.dib idx DIB_RAW_FREE } idx IDX_PUT
    have hless : (lifted h idx).idx_lowest_entry = h.idx_lowest_entry := hlowest
    have hne : i ≠ idx := by
      rintro rfl
      exact hfree hdib_idx
    rw [hless]
    rw [hdib_ne i hne] at hfree
    exact ht.lowest hindirect i hi hfree

/-- A bucket of the old table. -/
theorem rehash_bucket_ok (hr : Rehashing ops h₀ items h l) (hnot : IDX_PUT ∉ l) (hidx : idx < h.n) :
    ∃ h' l' r', rehash_bucket ops (h, r) idx = .ok (h', r') ∧
      Rehashing ops h₀ items h' l' ∧ IDX_PUT ∉ l' ∧
      (r' : Multiset (Ptr × Ptr)) + pending h' = r + pending h ∧
      ∀ i < h.n, h'.dib i = DIB_RAW_REHASH → h.dib i = DIB_RAW_REHASH ∧ i ≠ idx := by
  have ht := hr.tidy
  unfold rehash_bucket
  dsimp only
  by_cases hmark : h.dib idx = DIB_RAW_REHASH
  · rw [if_neg (not_not.mpr hmark)]
    have hmem : idx ∈ l := (ht.used idx hidx).mpr (by rw [hmark]; decide)
    have hlog : ∀ x, ((r ++ [x] : List (Ptr × Ptr)) : Multiset (Ptr × Ptr)) = r + {x} := by
      intro x
      rfl
    split
    · -- it is in its initial bucket by luck
      next hlucky =>
      have hmarks : ∀ i, update h.dib idx 0 i = DIB_RAW_REHASH ↔
          h.dib i = DIB_RAW_REHASH ∧ i ≠ idx := by
        intro i
        by_cases hne : i = idx
        · rw [hne, update_self]
          exact ⟨fun heq => absurd heq (by decide), fun hand => absurd rfl hand.2⟩
        · rw [update_of_ne hne]
          exact ⟨fun heq => ⟨heq, hne⟩, fun hand => hand.1⟩
      have hzero : 0 = dist h.n idx (home ops { h with dib := update h.dib idx 0 } idx) := by
        have hhome : home ops { h with dib := update h.dib idx 0 } idx = idx := hlucky
        rw [hhome, Probing.dist_self]
      have hlight : weight ops h idx ≤ 0 + 1 := by
        rw [weight_not_placed ops (not_placed.mpr (.inr hmark))]
        exact zero_le _
      have hsame : SameTable h { h with dib := update h.dib idx 0 } := ⟨rfl, rfl⟩
      have htidy : Tidy ops { h with dib := update h.dib idx 0 } l :=
        (ht.place (d := 0) hidx hsame (ht.listed.congr rfl rfl rfl rfl) ht.mem hmem
          (fun _ _ _ => Iff.rfl) rfl (fun _ _ _ => rfl) hzero hlight (zero_le _)
          (fun hindirect => ⟨le_refl _, ht.lowest hindirect idx hidx (by rw [hmark]; decide)⟩)).1
      refine ⟨_, l, _, rfl, ⟨htidy, ⟨hr.same.counts, hr.same.hash_key⟩, hr.enough, hr.items⟩, hnot, ?_,
        fun i _ hi => (hmarks i).mp hi⟩
      have htake : pending h =
          h.item idx ::ₘ pending { h with dib := update h.dib idx 0 } :=
        pending_take rfl hidx hmark (fun i _ => hmarks i) (fun _ _ _ _ => rfl)
      rw [htake, ← Multiset.singleton_add, ← Multiset.add_assoc]
      exact congrArg (· + _) (hlog _)
    · obtain ⟨hneput, -, -, -⟩ := ht.ne_swap hidx
      have hmarks : ∀ i, (lifted h idx).dib i = DIB_RAW_REHASH ↔
          h.dib i = DIB_RAW_REHASH ∧ i ≠ idx := by
        intro i
        rw [lifted_dib]
        by_cases hne : i = idx
        · rw [hne, update_self]
          exact ⟨fun heq => absurd heq (by decide), fun hand => absurd rfl hand.2⟩
        · rw [update_of_ne hne]
          exact ⟨fun heq => ⟨heq, hne⟩, fun hand => hand.1⟩
      have htake : pending h = h.item idx ::ₘ pending (lifted h idx) :=
        pending_take lifted_same.n hidx hmark (fun i _ => hmarks i) (fun i hi _ hne => by
          rw [lifted_item hne, if_neg (ht.ne_swap hi).1])
      have hput_item : (lifted h idx).item IDX_PUT = h.item idx := by
        rw [lifted_item hneput.symm, if_pos rfl]
      have hhome : bucket_hash ops h (h.bucket idx).key = home ops (lifted h idx) IDX_PUT := by
        unfold home
        rw [hput_item, lifted_same.bucket_hash]
        rfl
      have hput : IDX_PUT ∈ l.map (moved idx IDX_PUT) := (mem_map_moved hmem hnot).mpr (.inl rfl)
      have hitems : (l.map (moved idx IDX_PUT)).map (lifted h idx).item = l.map h.item := by
        rw [List.map_map]
        refine List.map_congr_left fun a ha => ?_
        rw [comp_apply]
        by_cases has : a = idx
        · rw [has, moved_src, hput_item]
        · have hap : a ≠ IDX_PUT := fun heq => hnot (heq ▸ ha)
          rw [moved_of_ne has, lifted_item has, if_neg hap]
      have hr1 : Rehashing ops h₀ items (lifted h idx) (l.map (moved idx IDX_PUT)) :=
        ⟨lifted_tidy ht hnot hidx hmark, hr.same.trans lifted_same, lifted_same.n.symm ▸ hr.enough,
          hitems.trans hr.items⟩
      -- fewer entries are pending than there are buckets
      have hcard : (pending (lifted h idx)).card < h.n := by
        have hle : (pending h).card ≤ h.n := by
          unfold pending
          rw [card_map]
          exact (Finset.card_filter_le _ _).trans_eq (Finset.card_range _)
        rw [htake] at hle
        exact hle
      obtain ⟨h', l', r', hok, hr', hnot', hlog', hmarks'⟩ := rehash_put_ok (r := r) hr1 hput hcard
      refine ⟨h', l', r', ?_, hr', hnot', ?_, ?_⟩
      · unfold bucket_move_entry
        rw [if_neg hneput, Outcome.ok_bind, hhome]
        have hn : ({ h with dib := update h.dib idx DIB_RAW_FREE }.move idx IDX_PUT).n = h.n :=
          lifted_same.n
        rw [hn]
        exact hok
      · rw [hlog', hput_item, htake]
      · intro i hi hi'
        exact (hmarks i).mp (hmarks' i (lifted_same.n.symm ▸ hi) hi')
  · rw [if_pos hmark]
    exact ⟨h, l, r, rfl, hr, hnot, rfl, fun i _ hi => ⟨hi, fun heq => hmark (heq ▸ hi)⟩⟩

/-- All buckets of the old table. -/
theorem rehash_buckets_ok (hr : Rehashing ops h₀ items h l) (hnot : IDX_PUT ∉ l) (old : List Nat)
    (hold : ∀ idx ∈ old, idx < h.n) :
    ∃ h' l' r', old.foldlM (rehash_bucket ops) (h, r) = .ok (h', r') ∧
      Rehashing ops h₀ items h' l' ∧ IDX_PUT ∉ l' ∧
      (r' : Multiset (Ptr × Ptr)) + pending h' = r + pending h ∧
      ∀ i < h.n, h'.dib i = DIB_RAW_REHASH → h.dib i = DIB_RAW_REHASH ∧ i ∉ old := by
  induction old generalizing h l r with
  | nil => exact ⟨h, l, r, rfl, hr, hnot, rfl, fun i _ hi => ⟨hi, not_mem_nil⟩⟩
  | cons idx old ih =>
    obtain ⟨hidx, hold⟩ := forall_mem_cons.mp hold
    obtain ⟨h1, l1, r1, hok1, hr1, hnot1, hlog1, hmarks1⟩ := rehash_bucket_ok (r := r) hr hnot hidx
    have hn : h1.n = h.n := by rw [hr1.same.n, hr.same.n]
    obtain ⟨h', l', r', hok, hr', hnot', hlog, hmarks⟩ := ih (r := r1) hr1 hnot1 (hn.symm ▸ hold)
    refine ⟨h', l', r', ?_, hr', hnot', hlog.trans hlog1, ?_⟩
    · rw [foldlM_cons, hok1]
      exact hok
    · intro i hi hi'
      obtain ⟨hi', hnotmem⟩ := hmarks i (hn.symm ▸ hi) hi'
      obtain ⟨hi', hne⟩ := hmarks1 i hi hi'
      exact ⟨hi', not_mem_cons_of_ne_of_not_mem hne hnotmem⟩

end rehash

/-! ## Section 3: The function -/

section resize
variable {m : UInt32} {hash_key : HashKey} {g : Growth} {entries_add : UInt32}

theorem n_buckets_small {type : HashmapType} (hm : g.n_buckets type = some m) :
    m.toNat < IDX_SWAP_BEGIN := by
  obtain ⟨hshift, hvalue⟩ := n_buckets_toNat hm
  have hpow : 2 ^ g.new_shift.toNat ≤ 2 ^ 31 :=
    Nat.pow_le_pow_right (by omega) (Nat.le_of_lt_succ hshift)
  have hdiv := Nat.div_le_self (2 ^ g.new_shift.toNat) type.bucket_size.toNat
  have hswap : IDX_SWAP_BEGIN = 4294967292 := rfl
  omega

/-- The table after all of its entries have been rehashed. -/
theorem resize_valid (hash_key : HashKey) (hv : Valid ops h l) (hgrow : resize_buckets_size h.toCounts entries_add = .grow g)
    (hm : g.n_buckets h.type = some m) :
    ∃ h' rehashed, (List.range h.n).foldlM (rehash_bucket ops) (grown h m hash_key, []) =
        .ok (h', rehashed) ∧ rehashed.Perm (l.map h.item) ∧
      Represents ops h' (l.map h.item) ∧ h'.n = m.toNat ∧ h'.n_entries = h.n_entries := by
  obtain ⟨hentries, -, -, -, hmore, -⟩ := grow_exact hgrow
  obtain ⟨hshift, hvalue⟩ := n_buckets_toNat hm
  obtain ⟨m', hm', henough, hover⟩ := n_buckets_enough hgrow hshift
  obtain rfl : m = m' := Option.some.inj (hm.symm.trans hm')
  have hless : h.n < m.toNat :=
    UInt32.lt_iff_toNat_lt.mp (UInt32.lt_of_lt_of_le hmore henough)
  have hfew : h.n_entries.toNat < m.toNat := by
    have hlt := UInt32.lt_iff_toNat_lt.mp hover
    omega
  have hitems : l.map (grown h m hash_key).item = l.map h.item :=
    map_congr_left fun i hi => grown_item (hv.mem_lt hi)
  have henough : (l.map h.item).length ≤ (grown h m hash_key).n := by
    rw [length_map, hv.count]
    exact le_of_lt hfew
  have hr : Rehashing ops (grown h m hash_key) (l.map h.item) (grown h m hash_key) l :=
    ⟨grown_tidy hv hless (n_buckets_small hm), SameTable.refl _, henough, hitems⟩
  obtain ⟨h', l', r', hok, hr', hnot', hlog, hmarks⟩ := rehash_buckets_ok (r := []) hr hv.not_put
    (List.range h.n) (fun idx hidx => (List.mem_range.mp hidx).trans hless)
  have hn : h'.n = m.toNat := hr'.same.n
  have hunmarked : ∀ i < m.toNat, h'.dib i ≠ DIB_RAW_REHASH := by
    intro i hi hmark
    obtain ⟨hmark, hnotmem⟩ := hmarks i hi hmark
    refine hnotmem (List.mem_range.mpr ?_)
    unfold grown at hmark
    dsimp only at hmark
    split at hmark
    · next hc => exact hc.1
    · exact absurd hmark (by decide)
  have hnothing : pending h' = 0 := by
    unfold pending
    rw [hn, Finset.filter_false_of_mem]
    · rfl
    · intro i hi
      exact hunmarked i (Finset.mem_range.mp hi)
  refine ⟨h', r', hok, ?_, ⟨l', ?_, hr'.items⟩, hn, by rw [hr'.same.counts]; rfl⟩
  · rw [hnothing, grown_pending hv hless, Multiset.add_zero] at hlog
    exact Multiset.coe_eq_coe.mp (hlog.trans (Multiset.zero_add _))
  · have hcount := congrArg length hr'.items
    rw [length_map, length_map, hv.count] at hcount
    refine ⟨hr'.tidy, hnot', fun i hi => hunmarked i (hn ▸ hi), ?_, ?_, ?_⟩
    · obtain ⟨i, hi, hnotmem⟩ := exists_not_mem (hcount.trans_lt hfew)
      have hi' : i < h'.n := hn.symm ▸ hi
      refine ⟨i, hi', ?_⟩
      have hfree : ¬ Placed h' i := fun hp => hnotmem ((hr'.tidy.used i hi').mpr hp.1)
      rw [weight_not_placed ops hfree]
      exact zero_le _
    · rw [hcount, hr'.same.counts]
      rfl
    · intro _
      refine ⟨g.new_shift.toNat, ?_⟩
      rw [hn, hvalue, hr'.same.counts]
      rfl

/-- `resize_buckets`, when it has to grow the table. -/
theorem resize_buckets_grow (hash_key : HashKey) (hv : Valid ops h l)
    (hgrow : resize_buckets_size h.toCounts entries_add = .grow g)
    (hm : g.n_buckets h.type = some m) :
    ∃ h' rehashed, resize_buckets ops h entries_add true hash_key = .ok (h', true) ∧
      (List.range h.n).foldlM (rehash_bucket ops) (grown h m hash_key, []) = .ok (h', rehashed) ∧
      rehashed.Perm (l.map h.item) ∧ Represents ops h' (l.map h.item) ∧ h'.n = m.toNat ∧
      h'.n_entries = h.n_entries := by
  obtain ⟨h', rehashed, hok, hperm, hrep, hn, hentries⟩ := resize_valid hash_key hv hgrow hm
  refine ⟨h', rehashed, ?_, hok, hperm, hrep, hn, hentries⟩
  have hmarks : ((List.range h.n).any fun idx => h.dib idx == DIB_RAW_REHASH) = false := by
    rw [List.any_eq_false]
    intro i hi
    rw [beq_iff_eq]
    exact hv.rehashed i (List.mem_range.mp hi)
  have hcount : rehashed.length = h.n_entries.toNat := by
    rw [hperm.length_eq, length_map, hv.count]
  unfold resize_buckets
  rw [hgrow]
  dsimp only
  rw [hm]
  dsimp only
  rw [if_neg (by decide), hmarks, if_neg (by decide), hok, Outcome.ok_bind]
  rw [if_neg (not_not.mpr hcount)]

/-- The bytes of the new table lie behind those of the old one, that are read
    while they are written. -/
theorem dibs_apart (hv : Valid ops h l) (hgrow : resize_buckets_size h.toCounts entries_add = .grow g)
    (hm : g.n_buckets h.type = some m) :
    h.n * h.type.bucket_size.toNat ≤ m.toNat * h.type.entry_size.toNat := by
  obtain ⟨-, -, -, -, hmore, -⟩ := grow_exact hgrow
  obtain ⟨hshift, hvalue⟩ := n_buckets_toNat hm
  obtain ⟨m', hm', henough, -⟩ := n_buckets_enough hgrow hshift
  obtain rfl : m = m' := Option.some.inj (hm.symm.trans hm')
  have hless : h.n < m.toNat :=
    UInt32.lt_iff_toNat_lt.mp (UInt32.lt_of_lt_of_le hmore henough)
  cases hind : h.has_indirect with
  | false =>
    -- the storage in the table has few buckets
    have hn : h.n = h.type.n_direct_buckets.toNat := by
      unfold HashmapBase.n Counts.n_buckets
      rw [hind]
      rfl
    rw [hn] at hless ⊢
    revert hless
    cases h.type with
    | plain =>
      change 2 < m.toNat → 2 * 17 ≤ m.toNat * 16
      omega
    | ordered =>
      change 1 < m.toNat → 1 * 25 ≤ m.toNat * 24
      omega
    | set =>
      change 4 < m.toNat → 4 * 9 ≤ m.toNat * 8
      omega
  | true =>
    obtain ⟨k, hn⟩ := hv.storage hind
    have hlt : k < g.new_shift.toNat := by
      by_contra hle
      have hpow := Nat.pow_le_pow_right (n := 2) (by decide) (Nat.not_lt.mp hle)
      have hdiv := Nat.div_le_div_right (c := h.type.bucket_size.toNat) hpow
      omega
    have hdouble : 2 * h.n ≤ m.toNat := by
      have hpow : 2 * 2 ^ k ≤ 2 ^ g.new_shift.toNat := by
        rw [← Nat.pow_succ']
        exact Nat.pow_le_pow_right (by decide) hlt
      rw [hn, hvalue]
      exact (Nat.mul_div_le_mul_div_assoc ..).trans (Nat.div_le_div_right hpow)
    have hsize : h.type.bucket_size.toNat ≤ 2 * h.type.entry_size.toNat := by
      cases h.type with
      | plain => decide
      | ordered => decide
      | set => decide
    calc h.n * h.type.bucket_size.toNat
        ≤ h.n * (2 * h.type.entry_size.toNat) := mul_le_mul_left _ hsize
      _ = 2 * h.n * h.type.entry_size.toNat := by rw [← mul_assoc, mul_comm h.n 2]
      _ ≤ m.toNat * h.type.entry_size.toNat := mul_le_mul_right _ hdouble

variable (ops h entries_add) in
/-- What growing a table is to do: the entries are the same, in the same order,
    and each has been rehashed once. The bytes that are read while the new ones
    are written are not overwritten. -/
structure Resized (items : List (Ptr × Ptr)) (hash_key : HashKey) (h' : HashmapBase) : Prop where
  entries : Represents ops h' items
  rehashed : ∃ m rehashed, h.n < m.toNat ∧ h'.n = m.toNat ∧
    h.n * h.type.bucket_size.toNat ≤ m.toNat * h.type.entry_size.toNat ∧
    (List.range h.n).foldlM (rehash_bucket ops) (grown h m hash_key, []) = .ok (h', rehashed) ∧
    rehashed.Perm items
  count : h'.n_entries = h.n_entries

/-- A table that has been resized has its entries as before. And `resize_buckets`
    returns, unless the shift is undefined. -/
theorem resize_buckets_preserves {items : List (Ptr × Ptr)} (hrep : Represents ops h items)
    (entries_add : UInt32) (memory : Bool) (hash_key : HashKey) :
    (∀ h', resize_buckets ops h entries_add memory hash_key = .ok (h', true) →
      Resized ops h items hash_key h') ∧
    (resize_buckets ops h entries_add memory hash_key = .abort →
      ∃ g, resize_buckets_size h.toCounts entries_add = .grow g ∧ ¬ g.new_shift < 32) := by
  obtain ⟨l, hv, rfl⟩ := hrep
  cases hsize : resize_buckets_size h.toCounts entries_add with
  | enomem =>
    unfold resize_buckets
    rw [hsize]
    exact ⟨fun _ hok => (by cases hok), fun habort => (by cases habort)⟩
  | unneeded =>
    unfold resize_buckets
    rw [hsize]
    exact ⟨fun _ hok => (by cases hok), fun habort => (by cases habort)⟩
  | grow g =>
    cases hm : g.n_buckets h.type with
    | none =>
      have hshift : ¬ g.new_shift < 32 := by
        intro hlt
        unfold Growth.n_buckets at hm
        rw [if_pos hlt] at hm
        cases hm
      refine ⟨?_, fun _ => ⟨g, rfl, hshift⟩⟩
      intro h' hok
      unfold resize_buckets at hok
      rw [hsize] at hok
      dsimp only at hok
      rw [hm] at hok
      cases hok
    | some m =>
      obtain ⟨h1, rehashed, hok, hfold, hperm, hrep, hn, hentries⟩ :=
        resize_buckets_grow hash_key hv hsize hm
      cases memory with
      | false =>
        unfold resize_buckets
        rw [hsize]
        dsimp only
        rw [hm]
        exact ⟨fun _ hok => (by cases hok), fun habort => (by cases habort)⟩
      | true =>
        rw [hok]
        refine ⟨?_, fun habort => (by cases habort)⟩
        intro h' heq
        cases heq
        refine ⟨hrep, ⟨m, rehashed, ?_, hn, dibs_apart hv hsize hm, hfold, hperm⟩, hentries⟩
        obtain ⟨hshift, -⟩ := n_buckets_toNat hm
        obtain ⟨-, -, -, -, hmore, -⟩ := grow_exact hsize
        obtain ⟨m', hm', henough, -⟩ := n_buckets_enough hsize hshift
        obtain rfl : m = m' := Option.some.inj (hm.symm.trans hm')
        exact UInt32.lt_iff_toNat_lt.mp (UInt32.lt_of_lt_of_le hmore henough)

/-- An `OrderedHashmap` with one entry, that is full. -/
def one_entry : HashmapBase where
  type := .ordered
  has_indirect := false
  n_entries := 1
  indirect_n_buckets := 0
  hash_key := (7, 0)
  idx_lowest_entry := 0
  bucket := fun i => if i = 0 then ⟨5, 50, IDX_NIL, IDX_NIL⟩ else zero_entry
  dib := fun i => if i = 0 then 0 else DIB_RAW_FREE
  iterate_list_head := 0
  iterate_list_tail := 0

/-- A hash that adds the key of the table. -/
def sum_ops : HashOps := ⟨fun hash_key p => hash_key.1 + p, fun a b => a = b⟩

theorem one_entry_represents : Represents sum_ops one_entry [(5, 50)] := by
  have hn : one_entry.n = 1 := by decide
  have hzero : ∀ {P : Nat → Prop}, P 0 → ∀ i < one_entry.n, P i := by
    intro P h0 i hi
    obtain rfl : i = 0 := by omega
    exact h0
  refine ⟨[0], ⟨⟨⟨by decide, by decide, fun _ => ?_⟩, by decide, by decide, ?_, ?_, ?_, ?_, ?_⟩,
    by decide, ?_, ?_, by decide, ?_⟩, rfl⟩
  · refine ⟨by decide, by decide, rfl, rfl, ?_⟩
    intro pre a post heq
    cases pre with
    | nil =>
      obtain ⟨rfl, rfl⟩ := cons.inj heq
      exact ⟨rfl, rfl⟩
    | cons b pre => exact absurd (cons.inj heq).2 (by simp)
  · intro i hi
    rw [List.mem_singleton] at hi
    exact .inl (by omega)
  · exact hzero (by decide)
  · exact hzero (fun _ => by decide)
  · exact hzero (by decide)
  · intro htrue
    exact absurd htrue (by decide)
  · exact hzero (by decide)
  · exact ⟨0, by decide, by decide⟩
  · intro htrue
    exact absurd htrue (by decide)

theorem resize_buckets_preserves_one :
    ∃ h', resize_buckets sum_ops one_entry 1 true (9, 0) = .ok (h', true) ∧
      Resized sum_ops one_entry [(5, 50)] (9, 0) h' := by
  have hsize : resize_buckets_size one_entry.toCounts 1 = .grow ⟨2, 2, 50, 7⟩ := by decide
  have hm : Growth.n_buckets one_entry.type ⟨2, 2, 50, 7⟩ = some 5 := by decide
  obtain ⟨l, hv, -⟩ := one_entry_represents
  obtain ⟨h', -, hok, -⟩ := resize_buckets_grow (9, 0) hv hsize hm
  exact ⟨h', hok, (resize_buckets_preserves one_entry_represents 1 true (9, 0)).1 h' hok⟩

end resize

end SdCompat.Hashmap
