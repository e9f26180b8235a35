import SdCompat.Basic.Hashmap
import SdCompat.Lib.Probing
import SdCompat.Lib.IndexList
import Mathlib.Data.Finset.Basic

/-! # The state of a hash table (hashmap.c)

    The invariant of the tables, that also holds while one is being changed: an
    entry may be in a swap bucket then, and others may still have to be rehashed.

    * `Listed`: the entries, in their order, are linked;
    * `Tidy`: the distances are right, and no entry is farther from its initial
      bucket than the one before it allows.
-/

namespace SdCompat.Hashmap

open Probing IndexList Finset Nat HashmapBase

/-! ## Section 1: Moving an entry -/

/-- `iterate_next` and `iterate_previous` of a bucket. -/
def HashmapBase.next (h : HashmapBase) (i : Nat) : Nat := (h.bucket i).iterate_next

def HashmapBase.prev (h : HashmapBase) (i : Nat) : Nat := (h.bucket i).iterate_previous

/-- The key and the value of a bucket. -/
def HashmapBase.item (h : HashmapBase) (i : Nat) : Ptr × Ptr := (h.bucket i).item

/-- The list is that of the entries in these buckets. -/
structure Listed (h : HashmapBase) (l : List Nat) : Prop where
  nil_not_mem : IDX_NIL ∉ l
  nodup : l.Nodup
  linked : h.type = .ordered →
    Linked IDX_NIL h.next h.prev h.iterate_list_head h.iterate_list_tail l

/-- What moving an entry leaves alone. -/
structure SameTable (h h' : HashmapBase) : Prop where
  counts : h'.toCounts = h.toCounts
  hash_key : h'.hash_key = h.hash_key

section same
variable {h h' h'' : HashmapBase}

theorem SameTable.refl (h : HashmapBase) : SameTable h h := ⟨rfl, rfl⟩

theorem SameTable.trans (h₁ : SameTable h h') (h₂ : SameTable h' h'') : SameTable h h'' :=
  ⟨h₂.counts.trans h₁.counts, h₂.hash_key.trans h₁.hash_key⟩

theorem SameTable.n (h₁ : SameTable h h') : h'.n = h.n := by
  unfold HashmapBase.n
  rw [h₁.counts]

theorem SameTable.type (h₁ : SameTable h h') : h'.type = h.type := by rw [h₁.counts]

theorem SameTable.bucket_hash (h₁ : SameTable h h') (ops : HashOps) (p : Ptr) :
    bucket_hash ops h' p = bucket_hash ops h p := by
  unfold Hashmap.bucket_hash
  rw [h₁.n, h₁.hash_key]

end same

section move
variable {h : HashmapBase} {l : List Nat} {src dst idx i v : Nat} {e : Entry}

theorem set_bucket_of_ne (hne : i ≠ idx) : (set_bucket h idx e).bucket i = h.bucket i :=
  Function.update_of_ne hne ..

theorem set_bucket_apply : (set_bucket h idx e).bucket i = if i = idx then e else h.bucket i :=
  Function.update_apply ..

/-- An entry is written, if there is a neighbour. -/
theorem set_bucket_if (v : Nat) : (if v ≠ IDX_NIL then set_bucket h v e else h).bucket i =
    if i = v ∧ i ≠ IDX_NIL then e else h.bucket i := by
  by_cases hv : v = IDX_NIL
  · rw [if_neg (not_not.mpr hv), if_neg (by rintro ⟨rfl, hne⟩; exact hne hv)]
  · rw [if_pos hv, set_bucket_apply]
    by_cases hi : i = v
    · rw [if_pos hi, if_pos ⟨hi, hi ▸ hv⟩]
    · rw [if_neg hi, if_neg (fun hc => hi hc.1)]

theorem set_previous_if (v w : Nat) :
    (if v ≠ IDX_NIL then set_previous h v w else h).next i = h.next i ∧
    (if v ≠ IDX_NIL then set_previous h v w else h).prev i =
      (if i = v ∧ i ≠ IDX_NIL then w else h.prev i) ∧
    (if v ≠ IDX_NIL then set_previous h v w else h).item i = h.item i := by
  unfold HashmapBase.next HashmapBase.prev HashmapBase.item set_previous
  rw [set_bucket_if]
  split
  · next hi =>
    obtain ⟨rfl, -⟩ := hi
    exact ⟨rfl, rfl, rfl⟩
  · exact ⟨rfl, rfl, rfl⟩

theorem set_next_if (v w : Nat) : (if v ≠ IDX_NIL then set_next h v w else h).next i =
      (if i = v ∧ i ≠ IDX_NIL then w else h.next i) ∧
    (if v ≠ IDX_NIL then set_next h v w else h).prev i = h.prev i ∧
    (if v ≠ IDX_NIL then set_next h v w else h).item i = h.item i := by
  unfold HashmapBase.next HashmapBase.prev HashmapBase.item set_next
  rw [set_bucket_if]
  split
  · next hi =>
    obtain ⟨rfl, -⟩ := hi
    exact ⟨rfl, rfl, rfl⟩
  · exact ⟨rfl, rfl, rfl⟩

/-- The links after an entry has been linked to its neighbours. -/
theorem relink_links (src : Nat) (hnext : h.next dst ≠ dst) :
    (relink h src dst).next i = (if i = h.prev dst ∧ i ≠ IDX_NIL then dst else h.next i) ∧
      (relink h src dst).prev i = (if i = h.next dst ∧ i ≠ IDX_NIL then dst else h.prev i) := by
  unfold relink
  dsimp only
  generalize hh : (if (h.bucket dst).iterate_next ≠ IDX_NIL then
    set_previous h (h.bucket dst).iterate_next dst else h) = h1
  have hfirst : ∀ i, h1.next i = h.next i ∧
      h1.prev i = (if i = h.next dst ∧ i ≠ IDX_NIL then dst else h.prev i) := by
    intro i
    subst hh
    obtain ⟨hn, hp, -⟩ := set_previous_if (h.next dst) dst
    exact ⟨hn, hp⟩
  have hdst : (h1.bucket dst).iterate_previous = h.prev dst := by
    have hprev := (hfirst dst).2
    rwa [if_neg (fun hc => hnext hc.1.symm)] at hprev
  rw [hdst]
  obtain ⟨hn, hp, -⟩ := set_next_if (h.prev dst) dst
  obtain ⟨hn1, hp1⟩ := hfirst i
  rw [hn1] at hn
  exact ⟨hn, hp.trans hp1⟩

theorem relink_item : (relink h src dst).item i = h.item i := by
  unfold relink
  obtain ⟨-, -, hfirst⟩ := set_previous_if (h.bucket dst).iterate_next dst
  generalize (if (h.bucket dst).iterate_next ≠ IDX_NIL then
    set_previous h (h.bucket dst).iterate_next dst else h) = h1 at *
  obtain ⟨-, -, hsecond⟩ := set_next_if (h1.bucket dst).iterate_previous dst
  exact hsecond.trans hfirst

theorem relink_same (src dst : Nat) : SameTable h (relink h src dst) ∧ (relink h src dst).dib = h.dib ∧
    (relink h src dst).idx_lowest_entry = h.idx_lowest_entry ∧
    (relink h src dst).iterate_list_head =
      (if h.iterate_list_head = src then dst else h.iterate_list_head) ∧
    (relink h src dst).iterate_list_tail =
      (if h.iterate_list_tail = src then dst else h.iterate_list_tail) := by
  unfold relink
  dsimp only
  split
  · split
    · exact ⟨⟨rfl, rfl⟩, rfl, rfl, rfl, rfl⟩
    · exact ⟨⟨rfl, rfl⟩, rfl, rfl, rfl, rfl⟩
  · split
    · exact ⟨⟨rfl, rfl⟩, rfl, rfl, rfl, rfl⟩
    · exact ⟨⟨rfl, rfl⟩, rfl, rfl, rfl, rfl⟩

/-- What is left alone when an entry is moved. -/
theorem move_same (h : HashmapBase) (src dst : Nat) : SameTable h (h.move src dst) ∧ (h.move src dst).dib = h.dib ∧
    (h.move src dst).idx_lowest_entry = h.idx_lowest_entry := by
  unfold move
  dsimp only
  split
  · obtain ⟨hsame, hdib, hlowest, -, -⟩ :=
      relink_same (h := set_bucket h dst (h.bucket src)) src dst
    exact ⟨⟨hsame.counts, hsame.hash_key⟩, hdib, hlowest⟩
  · exact ⟨⟨rfl, rfl⟩, rfl, rfl⟩

theorem move_item : (h.move src dst).item i = if i = dst then h.item src else h.item i := by
  have hset : (set_bucket h dst (h.bucket src)).item i =
      if i = dst then h.item src else h.item i := by
    unfold item
    rw [set_bucket_apply]
    split
    · rfl
    · rfl
  unfold move
  dsimp only
  split
  · rw [relink_item, hset]
  · exact hset

/-- Where an entry is after another one has been moved. -/
def moved (src dst i : Nat) : Nat := if i = src then dst else i

theorem moved_src : moved src dst src = dst := if_pos rfl

theorem moved_of_ne (hne : i ≠ src) : moved src dst i = i := if_neg hne

/-- The entries are linked as before. -/
theorem Listed.move (hl : Listed h l) (hsrc : src ∈ l) (hdst : dst ∉ l) (hnil : dst ≠ IDX_NIL) :
    Listed (h.move src dst) (l.map (moved src dst)) := by
  have hsrcnil : src ≠ IDX_NIL := fun heq => hl.nil_not_mem (heq ▸ hsrc)
  have hnot : IDX_NIL ∉ l.map (moved src dst) := by
    intro hmem
    obtain ⟨a, ha, heq⟩ := List.mem_map.mp hmem
    unfold moved at heq
    split at heq
    · exact hnil heq
    · exact hl.nil_not_mem (heq ▸ ha)
  have hnodup : (l.map (moved src dst)).Nodup := by
    refine hl.nodup.map_on ?_
    intro a ha b hb heq
    unfold moved at heq
    split at heq
    · next has =>
      split at heq
      · next hbs => rw [has, hbs]
      · exact absurd (heq ▸ hb) hdst
    · split at heq
      · exact absurd (heq ▸ ha) hdst
      · exact heq
  refine ⟨hnot, hnodup, fun htype => ?_⟩
  rw [(move_same h src dst).1.type] at htype
  have hlinked := hl.linked htype
  have hmove : h.move src dst = relink (set_bucket h dst (h.bucket src)) src dst := if_pos htype
  rw [hmove]
  obtain ⟨-, -, -, hhead, htail⟩ :=
    relink_same (h := set_bucket h dst (h.bucket src)) src dst
  rw [hhead, htail]
  -- what the copied entry is linked to
  have hset : ∀ i, (set_bucket h dst (h.bucket src)).next i = (if i = dst then h.next src else h.next i) ∧
      (set_bucket h dst (h.bucket src)).prev i = (if i = dst then h.prev src else h.prev i) := by
    intro i
    unfold HashmapBase.next HashmapBase.prev
    rw [set_bucket_apply]
    split
    · exact ⟨rfl, rfl⟩
    · exact ⟨rfl, rfl⟩
  have hnextne : h.next src ≠ dst := by
    intro heq
    rcases hlinked.next_mem_or hsrc with hn | hn
    · exact hnil (heq.symm.trans hn)
    · exact hdst (heq ▸ hn)
  have hlinks : ∀ i, (relink (set_bucket h dst (h.bucket src)) src dst).next i =
        (if i = h.prev src ∧ i ≠ IDX_NIL then dst else if i = dst then h.next src else h.next i) ∧
      (relink (set_bucket h dst (h.bucket src)) src dst).prev i =
        (if i = h.next src ∧ i ≠ IDX_NIL then dst else if i = dst then h.prev src else h.prev i) := by
    intro i
    have hdn : (set_bucket h dst (h.bucket src)).next dst = h.next src := by rw [(hset dst).1, if_pos rfl]
    have hdp : (set_bucket h dst (h.bucket src)).prev dst = h.prev src := by rw [(hset dst).2, if_pos rfl]
    obtain ⟨hn, hp⟩ := relink_links (i := i) src (hdn ▸ hnextne)
    rw [hdp, (hset i).1] at hn
    rw [hdn, (hset i).2] at hp
    exact ⟨hn, hp⟩
  refine hlinked.map (moved_of_ne hsrcnil.symm) hnot hnodup ?_ ?_
  · intro a ha
    have hane : a ≠ IDX_NIL := fun heq => hl.nil_not_mem (heq ▸ ha)
    have had : a ≠ dst := fun heq => hdst (heq ▸ ha)
    rw [(hlinks _).1]
    by_cases has : a = src
    · subst has
      have hprev : dst ≠ h.prev a := by
        intro heq
        rcases hlinked.prev_mem_or ha with hp | hp
        · exact hnil (heq.trans hp)
        · exact hdst (heq ▸ hp)
      rw [moved_src, if_neg (fun hc => hprev hc.1), if_pos rfl, moved_of_ne (hlinked.next_ne ha)]
    · rw [moved_of_ne has, if_neg had]
      have hiff := hlinked.next_eq_iff ha hsrc
      by_cases hbefore : h.next a = src
      · rw [if_pos ⟨(hiff.mp hbefore).symm, hane⟩, hbefore, moved_src]
      · rw [if_neg (fun hc => hbefore (hiff.mpr hc.1.symm)), moved_of_ne hbefore]
  · intro a ha
    have hane : a ≠ IDX_NIL := fun heq => hl.nil_not_mem (heq ▸ ha)
    have had : a ≠ dst := fun heq => hdst (heq ▸ ha)
    rw [(hlinks _).2]
    by_cases has : a = src
    · subst has
      rw [moved_src, if_neg (fun hc => hnextne hc.1.symm), if_pos rfl,
        moved_of_ne (hlinked.prev_ne ha)]
    · rw [moved_of_ne has, if_neg had]
      have hiff := hlinked.next_eq_iff hsrc ha
      by_cases hbehind : h.prev a = src
      · rw [if_pos ⟨(hiff.mpr hbehind).symm, hane⟩, hbehind, moved_src]
      · rw [if_neg (fun hc => hbehind (hiff.mp hc.1.symm)), moved_of_ne hbehind]

/-- The keys and the values are the same ones, in the same order. -/
theorem move_items (hdst : dst ∉ l) :
    (l.map (moved src dst)).map (h.move src dst).item = l.map h.item := by
  rw [List.map_map]
  refine List.map_congr_left fun a ha => ?_
  have had : a ≠ dst := fun heq => hdst (heq ▸ ha)
  rw [Function.comp_apply, move_item]
  by_cases has : a = src
  · rw [has, moved_src, if_pos rfl]
  · rw [moved_of_ne has, if_neg had]

theorem mem_map_moved (hsrc : src ∈ l) (hdst : dst ∉ l) :
    i ∈ l.map (moved src dst) ↔ i = dst ∨ i ∈ l ∧ i ≠ src := by
  rw [List.mem_map]
  constructor
  · rintro ⟨a, ha, rfl⟩
    by_cases has : a = src
    · exact .inl (by rw [has, moved_src])
    · rw [moved_of_ne has]
      exact .inr ⟨ha, has⟩
  · rintro (rfl | ⟨hi, hne⟩)
    · exact ⟨src, hsrc, moved_src⟩
    · exact ⟨i, hi, moved_of_ne hne⟩

/-- Only the buckets and the list count. -/
theorem Listed.congr {h' : HashmapBase} (hl : Listed h l) (htype : h'.type = h.type)
    (hbucket : h'.bucket = h.bucket) (hhead : h'.iterate_list_head = h.iterate_list_head)
    (htail : h'.iterate_list_tail = h.iterate_list_tail) : Listed h' l := by
  refine ⟨hl.nil_not_mem, hl.nodup, fun ht => ?_⟩
  have hlinked := hl.linked (htype ▸ ht)
  have hnext : h'.next = h.next := by
    unfold HashmapBase.next
    rw [hbucket]
  have hprev : h'.prev = h.prev := by
    unfold HashmapBase.prev
    rw [hbucket]
  rw [hnext, hprev, hhead, htail]
  exact hlinked

/-- The entry of a bucket is swapped for that in `IDX_PUT`. -/
def HashmapBase.swapped (h : HashmapBase) (idx : Nat) : HashmapBase :=
  ((h.move idx IDX_TMP).move IDX_PUT idx).move IDX_TMP IDX_PUT

theorem swapped_same (h : HashmapBase) (idx : Nat) : SameTable h (h.swapped idx) ∧
    (h.swapped idx).dib = h.dib ∧ (h.swapped idx).idx_lowest_entry = h.idx_lowest_entry := by
  obtain ⟨h1, hd1, hl1⟩ := move_same h idx IDX_TMP
  obtain ⟨h2, hd2, hl2⟩ := move_same (h.move idx IDX_TMP) IDX_PUT idx
  obtain ⟨h3, hd3, hl3⟩ :=
    move_same ((h.move idx IDX_TMP).move IDX_PUT idx) IDX_TMP IDX_PUT
  exact ⟨(h1.trans h2).trans h3, hd3.trans (hd2.trans hd1), hl3.trans (hl2.trans hl1)⟩

theorem swapped_item (htmp : idx ≠ IDX_TMP) (hi : i ≠ IDX_TMP) : (h.swapped idx).item i =
      if i = IDX_PUT then h.item idx else if i = idx then h.item IDX_PUT else h.item i := by
  have hne : IDX_PUT ≠ IDX_TMP := by decide
  unfold swapped
  rw [move_item]
  by_cases hp : i = IDX_PUT
  · rw [if_pos hp, if_pos hp, move_item, if_neg htmp.symm, move_item, if_pos rfl]
  · rw [if_neg hp, if_neg hp, move_item]
    by_cases hx : i = idx
    · rw [if_pos hx, if_pos hx, move_item, if_neg hne]
    · rw [if_neg hx, if_neg hx, move_item, if_neg hi]

theorem swap_put_eq (hput : idx ≠ IDX_PUT) (htmp : idx ≠ IDX_TMP) :
    swap_put h idx = .ok (h.swapped idx) := by
  have hne : IDX_TMP ≠ IDX_PUT := by decide
  unfold swap_put bucket_move_entry
  rw [if_neg htmp, Outcome.ok_bind, if_neg hput.symm, Outcome.ok_bind]
  rfl

theorem Listed.swapped (hl : Listed h l) (hidx : idx ∈ l) (hput : IDX_PUT ∈ l) (htmp : IDX_TMP ∉ l)
    (hne : idx ≠ IDX_PUT) : ∃ l', Listed (h.swapped idx) l' ∧ (∀ i, i ∈ l' ↔ i ∈ l) ∧
      l'.map (h.swapped idx).item = l.map h.item := by
  have hidxtmp : idx ≠ IDX_TMP := fun heq => htmp (heq ▸ hidx)
  have hputtmp : IDX_PUT ≠ IDX_TMP := by decide
  have hidxnil : idx ≠ IDX_NIL := fun heq => hl.nil_not_mem (heq ▸ hidx)
  have hl1 := hl.move hidx htmp (by decide)
  have hput1 : IDX_PUT ∈ l.map (moved idx IDX_TMP) :=
    (mem_map_moved hidx htmp).mpr (.inr ⟨hput, hne.symm⟩)
  have hidx1 : idx ∉ l.map (moved idx IDX_TMP) := by
    rw [mem_map_moved hidx htmp]
    rintro (heq | ⟨-, heq⟩)
    · exact hidxtmp heq
    · exact heq rfl
  have hl2 := hl1.move hput1 hidx1 hidxnil
  have htmp2 : IDX_TMP ∈ (l.map (moved idx IDX_TMP)).map (moved IDX_PUT idx) :=
    (mem_map_moved hput1 hidx1).mpr (.inr ⟨(mem_map_moved hidx htmp).mpr (.inl rfl), hputtmp.symm⟩)
  have hput2 : IDX_PUT ∉ (l.map (moved idx IDX_TMP)).map (moved IDX_PUT idx) := by
    rw [mem_map_moved hput1 hidx1]
    rintro (heq | ⟨-, heq⟩)
    · exact hne heq.symm
    · exact heq rfl
  refine ⟨_, hl2.move htmp2 hput2 (by decide), ?_, ?_⟩
  · intro i
    rw [mem_map_moved htmp2 hput2, mem_map_moved hput1 hidx1, mem_map_moved hidx htmp]
    constructor
    · rintro (rfl | ⟨rfl | ⟨rfl | ⟨hi, -⟩, -⟩, hitmp⟩)
      · exact hput
      · exact hidx
      · exact absurd rfl hitmp
      · exact hi
    · intro hi
      by_cases hip : i = IDX_PUT
      · exact .inl hip
      refine .inr ⟨?_, fun heq => htmp (heq ▸ hi)⟩
      by_cases hii : i = idx
      · exact .inl hii
      · exact .inr ⟨.inr ⟨hi, hii⟩, hip⟩
  · unfold HashmapBase.swapped
    rw [move_items hput2, move_items hidx1, move_items htmp]

end move

/-! ## Section 2: Distances -/

section distance
variable (ops : HashOps) (h : HashmapBase)

/-- The initial bucket of the entry in a bucket. -/
def home (i : Nat) : Nat := bucket_hash ops h (h.item i).1

/-- The bucket has an entry, and it does not have to be rehashed. -/
def Placed (i : Nat) : Prop := h.dib i ≠ DIB_RAW_FREE ∧ h.dib i ≠ DIB_RAW_REHASH

instance (i : Nat) : Decidable (Placed h i) := inferInstanceAs (Decidable (_ ∧ _))

/-- How far the entry is from its initial bucket, plus one. -/
def weight (i : Nat) : Nat := if Placed h i then dist h.n i (home ops h i) + 1 else 0

/-- The entries that have to be rehashed. -/
def pending : Multiset (Ptr × Ptr) :=
  ((Finset.range h.n).filter fun i => h.dib i = DIB_RAW_REHASH).val.map h.item

/-- The invariant: the table is this list, some entries of which may have to be
    rehashed, and one of which may be in `IDX_PUT`. -/
structure Tidy (l : List Nat) : Prop where
  listed : Listed h l
  pos : 0 < h.n
  small : h.n < IDX_SWAP_BEGIN
  mem : ∀ i ∈ l, i < h.n ∨ i = IDX_PUT
  used : ∀ i < h.n, i ∈ l ↔ h.dib i ≠ DIB_RAW_FREE
  raw : ∀ i < h.n, Placed h i → h.dib i = dib_raw (dist h.n i (home ops h i))
  probed : Probed h.n (weight ops h)
  lowest : h.has_indirect = true → ∀ i < h.n, h.dib i ≠ DIB_RAW_FREE → h.idx_lowest_entry ≤ i

end distance

section tidy
variable {ops : HashOps} {h h' : HashmapBase} {l l' : List Nat} {i idx d : Nat} {p : Ptr}

theorem bucket_hash_lt (hpos : 0 < h.n) : bucket_hash ops h p < h.n := mod_lt _ hpos

theorem Tidy.home_lt (ht : Tidy ops h l) (i : Nat) : home ops h i < h.n := bucket_hash_lt ht.pos

/-- A distance that fits into the byte. -/
theorem dib_raw_of_lt (hd : d < DIB_RAW_OVERFLOW.toNat) : (dib_raw d).toNat = d := by
  have hover : DIB_RAW_OVERFLOW.toNat = 253 := by decide
  rw [hover] at hd
  unfold dib_raw
  rw [if_pos (by unfold DIB_FREE; omega), hover, min_eq_left (le_of_lt hd),
    toUInt8_eq, UInt8.toNat_ofNat']
  omega

theorem dib_raw_of_le (hd : DIB_RAW_OVERFLOW.toNat ≤ d) (hfree : d ≠ DIB_FREE) :
    dib_raw d = DIB_RAW_OVERFLOW := by
  unfold dib_raw
  rw [if_pos hfree, min_eq_right hd]
  rfl

/-- The byte of a distance is none of the marks. -/
theorem dib_raw_placed (hfree : d ≠ DIB_FREE) :
    dib_raw d ≠ DIB_RAW_FREE ∧ dib_raw d ≠ DIB_RAW_REHASH ∧ (dib_raw d = 0 ↔ d = 0) := by
  have hover : DIB_RAW_OVERFLOW.toNat = 253 := by decide
  by_cases hd : d < DIB_RAW_OVERFLOW.toNat
  · have hval := dib_raw_of_lt hd
    refine ⟨?_, ?_, ?_⟩
    · intro heq
      rw [heq] at hval
      have hff : DIB_RAW_FREE.toNat = 255 := by decide
      omega
    · intro heq
      rw [heq] at hval
      have hfe : DIB_RAW_REHASH.toNat = 254 := by decide
      omega
    · constructor
      · intro heq
        rw [heq] at hval
        exact hval.symm
      · intro heq
        rw [heq]
        decide
  · rw [dib_raw_of_le (not_lt.mp hd) hfree]
    refine ⟨by decide, by decide, ?_⟩
    constructor
    · intro heq
      exact absurd heq (by decide)
    · intro heq
      rw [heq] at hd
      exact absurd (by decide) hd

/-- A bucket where no entry is placed. -/
theorem not_placed : ¬ Placed h i ↔ h.dib i = DIB_RAW_FREE ∨ h.dib i = DIB_RAW_REHASH := by
  unfold Placed
  rw [not_and_or, not_not, not_not]

theorem weight_placed (ops : HashOps) (hp : Placed h i) : weight ops h i = dist h.n i (home ops h i) + 1 := if_pos hp

theorem weight_not_placed (ops : HashOps) (hp : ¬ Placed h i) : weight ops h i = 0 := if_neg hp

section
variable (ht : Tidy ops h l)
include ht

theorem Tidy.dist_lt (hi : i < h.n) : dist h.n i (home ops h i) < h.n :=
  Probing.dist_lt hi (ht.home_lt i)

theorem Tidy.ne_dib_free (hd : d < h.n) : d ≠ DIB_FREE := by
  have hsmall := ht.small
  have hswap : IDX_SWAP_BEGIN = 4294967292 := rfl
  have hfree : DIB_FREE = 4294967295 := rfl
  omega

/-- The distance is computed from the byte, or again from the key. -/
theorem Tidy.calculate_dib (hi : i < h.n) (hp : Placed h i) :
    bucket_calculate_dib ops h i (h.dib i) = dist h.n i (home ops h i) := by
  have hfree := ht.ne_dib_free (ht.dist_lt hi)
  have hraw := ht.raw i hi hp
  unfold bucket_calculate_dib
  rw [if_neg hp.1]
  by_cases hd : dist h.n i (home ops h i) < DIB_RAW_OVERFLOW.toNat
  · have hval := dib_raw_of_lt hd
    rw [if_pos, hraw, hval]
    rw [UInt8.lt_iff_toNat_lt, hraw, hval]
    exact hd
  · rw [if_neg]
    · rfl
    · rw [hraw, dib_raw_of_le (not_lt.mp hd) hfree]
      exact fun hlt => absurd hlt (by decide)

/-- Nothing is in the temporary bucket. -/
theorem Tidy.tmp_not_mem : IDX_TMP ∉ l := by
  intro hmem
  rcases ht.mem _ hmem with hlt | heq
  · have hsmall := ht.small
    have htmp : IDX_TMP = IDX_SWAP_BEGIN + 1 := rfl
    omega
  · exact absurd heq (by decide)

/-- A bucket of the table is not one of the others. -/
theorem Tidy.ne_swap (hi : i < h.n) : i ≠ IDX_PUT ∧ i ≠ IDX_TMP ∧ i ≠ IDX_FIRST ∧ i ≠ IDX_NIL := by
  have hsmall := ht.small
  unfold IDX_PUT IDX_TMP IDX_FIRST IDX_NIL
  omega

end

theorem pending_congr (hn : h'.n = h.n)
    (hdib : ∀ i < h.n, h'.dib i = DIB_RAW_REHASH ↔ h.dib i = DIB_RAW_REHASH)
    (hitem : ∀ i < h.n, h.dib i = DIB_RAW_REHASH → h'.item i = h.item i) :
    pending h' = pending h := by
  unfold pending
  have hset : (range h'.n).filter (fun i => h'.dib i = DIB_RAW_REHASH) =
      (range h.n).filter fun i => h.dib i = DIB_RAW_REHASH := by
    rw [hn]
    refine filter_congr fun i hi => hdib i (mem_range.mp hi)
  rw [hset]
  refine Multiset.map_congr rfl fun i hi => ?_
  obtain ⟨hi, hd⟩ := mem_filter.mp (mem_val.mp hi)
  exact hitem i (mem_range.mp hi) hd

/-- One of the entries has been taken to be rehashed. -/
theorem pending_take (hn : h'.n = h.n) (hidx : idx < h.n) (hmark : h.dib idx = DIB_RAW_REHASH)
    (hdib : ∀ i < h.n, h'.dib i = DIB_RAW_REHASH ↔ h.dib i = DIB_RAW_REHASH ∧ i ≠ idx)
    (hitem : ∀ i < h.n, h.dib i = DIB_RAW_REHASH → i ≠ idx → h'.item i = h.item i) :
    pending h = h.item idx ::ₘ pending h' := by
  unfold pending
  have hset : (range h'.n).filter (fun i => h'.dib i = DIB_RAW_REHASH) =
      ((range h.n).filter fun i => h.dib i = DIB_RAW_REHASH).erase idx := by
    ext i
    rw [hn, mem_filter, mem_erase, mem_filter, mem_range]
    constructor
    · rintro ⟨hi, hd⟩
      obtain ⟨hd, hne⟩ := (hdib i hi).mp hd
      exact ⟨hne, hi, hd⟩
    · rintro ⟨hne, hi, hd⟩
      exact ⟨hi, (hdib i hi).mpr ⟨hd, hne⟩⟩
  have hmem : idx ∈ (range h.n).filter fun i => h.dib i = DIB_RAW_REHASH :=
    mem_filter.mpr ⟨mem_range.mpr hidx, hmark⟩
  have hmap : ((range h'.n).filter fun i => h'.dib i = DIB_RAW_REHASH).val.map h'.item =
      (((range h.n).filter fun i => h.dib i = DIB_RAW_REHASH).erase idx).val.map h.item := by
    rw [hset]
    refine Multiset.map_congr rfl fun i hi => ?_
    obtain ⟨hne, hi⟩ := mem_erase.mp (mem_val.mp hi)
    obtain ⟨hi, hd⟩ := mem_filter.mp hi
    exact hitem i (mem_range.mp hi) hd hne
  rw [hmap, ← Multiset.map_cons, ← insert_val_of_notMem (notMem_erase _ _),
    insert_erase hmem]

/-! ## Section 3: A table at rest -/

variable (ops h l) in
/-- No entry is in a swap bucket or has to be rehashed, and one is in its initial
    bucket, or a bucket is free. -/
structure Valid : Prop extends Tidy ops h l where
  not_put : IDX_PUT ∉ l
  rehashed : ∀ i < h.n, h.dib i ≠ DIB_RAW_REHASH
  light : ∃ i < h.n, weight ops h i ≤ 1
  count : l.length = h.n_entries.toNat
  /-- the buckets and the bytes fill a storage whose size is a power of two -/
  storage : h.has_indirect = true → ∃ k, h.n = 2 ^ k / h.type.bucket_size.toNat

variable (ops h) in
/-- The entries of a table, in the order of its list. -/
def Represents (items : List (Ptr × Ptr)) : Prop := ∃ l, Valid ops h l ∧ l.map h.item = items

theorem Valid.mem_lt (hv : Valid ops h l) (hi : i ∈ l) : i < h.n :=
  (hv.mem i hi).resolve_right fun heq => hv.not_put (heq ▸ hi)

end tidy

end SdCompat.Hashmap
