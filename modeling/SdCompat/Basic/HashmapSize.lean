import SdCompat.Basic.Common

/-! # How much a hash table grows (hashmap.c, logarithm.h)

    The arithmetic of `resize_buckets`, with the types it has in C on a 64-bit
    system: counts are `unsigned`, sizes are `size_t`.

    * `Growth.Exact`: what the arithmetic is to give;
    * `growth_exact_iff`: when it gives that.
-/

namespace SdCompat.Hashmap

open Nat

/-! ## Section 1: The functions of the source -/

/-- `enum HashmapType` -/
inductive HashmapType where
  | plain
  | ordered
  | set
  deriving DecidableEq

/-- `entry_size` in `hashmap_type_info` -/
def HashmapType.entry_size : HashmapType → UInt64
  | .plain => 16
  | .ordered => 24
  | .set => 8

/-- `hi->entry_size + sizeof(dib_raw_t)` -/
def HashmapType.bucket_size (type : HashmapType) : UInt64 := type.entry_size + 1

/-- `sizeof(struct direct_storage)`: the packed `struct indirect_storage`. -/
def sizeof_direct_storage : UInt64 := 8 + 16 + 4 + 4 + 4 + 3

/-- `n_direct_buckets` in `hashmap_type_info` -/
def HashmapType.n_direct_buckets (type : HashmapType) : UInt32 :=
  (sizeof_direct_storage / type.bucket_size).toUInt32

/-- `INV_KEEP_FREE` -/
def INV_KEEP_FREE : UInt32 := 5

/-- `UINT_MAX` -/
def UINT_MAX : UInt32 := 0xffffffff

/-- `log2u_round_up` -/
def log2u_round_up (x : UInt32) : UInt32 := if x ≤ 1 then 0 else (x - 1).log2 + 1

/-- What `resize_buckets` reads of a table. -/
structure Counts where
  type : HashmapType
  has_indirect : Bool
  n_entries : UInt32
  indirect_n_buckets : UInt32

/-- `n_buckets` -/
def Counts.n_buckets (h : Counts) : UInt32 :=
  if h.has_indirect then h.indirect_n_buckets else h.type.n_direct_buckets

/-- What `resize_buckets` computes before it reallocates. -/
structure Growth where
  new_n_entries : UInt32
  new_n_buckets : UInt32
  size : UInt64
  new_shift : UInt8
  deriving DecidableEq

/-- `(1U << new_shift) / (hi->entry_size + sizeof(dib_raw_t))`, unless the shift
    is undefined. -/
def Growth.n_buckets (type : HashmapType) (g : Growth) : Option UInt32 :=
  if g.new_shift < 32 then
    some (((1 : UInt32) <<< g.new_shift.toUInt32).toUInt64 / type.bucket_size).toUInt32
  else none

/-- How far `resize_buckets` gets. -/
inductive Resize where
  | enomem
  | unneeded
  | grow (g : Growth)
  deriving DecidableEq

/-- `resize_buckets`, up to its `realloc` -/
def resize_buckets_size (h : Counts) (entries_add : UInt32) : Resize :=
  let new_n_entries := h.n_entries + entries_add
  if new_n_entries < entries_add then .enomem
  else if !h.has_indirect && new_n_entries ≤ h.type.n_direct_buckets then .unneeded
  else
    let new_n_buckets := new_n_entries + new_n_entries / (INV_KEEP_FREE - 1)
    if new_n_buckets < new_n_entries then .enomem
    else if new_n_buckets.toUInt64 > UINT_MAX.toUInt64 / h.type.bucket_size then .enomem
    else if new_n_buckets ≤ h.n_buckets then .unneeded
    else
      let size := new_n_buckets.toUInt64 * h.type.bucket_size
      .grow {
        new_n_entries, new_n_buckets, size
        new_shift := (log2u_round_up (max size (2 * sizeof_direct_storage)).toUInt32).toUInt8 }

/-! ## Section 2: Without overflow -/

variable {h : Counts} {entries_add : UInt32} {g : Growth}

/-- No computation overflows and no shift is undefined; there are the buckets
    that the load factor asks for, and more than entries. -/
structure Growth.Exact (h : Counts) (entries_add : UInt32) (g : Growth) : Prop where
  entries : g.new_n_entries.toNat = h.n_entries.toNat + entries_add.toNat
  buckets : g.new_n_buckets.toNat = g.new_n_entries.toNat + g.new_n_entries.toNat / 4
  size : g.size.toNat = g.new_n_buckets.toNat * h.type.bucket_size.toNat
  /-- `log2u_round_up` takes an `unsigned` -/
  unsigned : g.size.toNat < 2 ^ 32
  shift : g.new_shift.toNat < 32
  enough : ∃ m, g.n_buckets h.type = some m ∧ g.new_n_buckets ≤ m ∧ h.n_buckets < m ∧
    g.new_n_entries < m

/-- The storage that the load factor asks for, as a number. -/
def storage_needed (h : Counts) (entries_add : UInt32) : Nat :=
  let n := h.n_entries.toNat + entries_add.toNat
  (n + n / 4) * h.type.bucket_size.toNat

theorem log2_toNat (x : UInt32) : x.log2.toNat = x.toNat.log2 := rfl

/-- `log2u_round_up` finds the power of two. -/
theorem le_round_up {x : UInt32} (hx : 1 < x.toNat) :
    x.toNat ≤ 2 ^ (log2u_round_up x).toNat ∧ 2 ^ (log2u_round_up x).toNat < 2 * x.toNat := by
  have hne : ¬ x ≤ 1 := by
    exact Nat.not_le.mpr hx
  have hsub : (x - 1).toNat = x.toNat - 1 :=
    UInt32.toNat_sub_of_le _ _ (UInt32.le_iff_toNat_le.mpr (Nat.le_of_lt hx))
  have hlog : (x.toNat - 1).log2 < 32 := by
    rw [log2_lt (by omega)]
    have := x.toNat_lt
    omega
  have hval : (log2u_round_up x).toNat = (x.toNat - 1).log2 + 1 := by
    unfold log2u_round_up
    rw [if_neg hne, UInt32.toNat_add, log2_toNat, hsub]
    simp only [UInt32.reduceToNat]
    omega
  have hlow := log2_self_le (n := x.toNat - 1) (by omega)
  have hhigh := lt_log2_self (n := x.toNat - 1)
  rw [hval]
  omega

section
variable (hgrow : resize_buckets_size h entries_add = .grow g)
include hgrow

/-- The guards keep the sums and the size within 32 bits. -/
theorem grow_exact : g.new_n_entries.toNat = h.n_entries.toNat + entries_add.toNat ∧
    g.new_n_buckets.toNat = g.new_n_entries.toNat + g.new_n_entries.toNat / 4 ∧
    g.size.toNat = g.new_n_buckets.toNat * h.type.bucket_size.toNat ∧
    g.size.toNat < 2 ^ 32 ∧ h.n_buckets < g.new_n_buckets ∧
    g.new_shift = (log2u_round_up (max g.size (2 * sizeof_direct_storage)).toUInt32).toUInt8 := by
  unfold resize_buckets_size at hgrow
  dsimp only at hgrow
  split at hgrow
  · cases hgrow
  next hentries =>
  split at hgrow
  · cases hgrow
  split at hgrow
  · cases hgrow
  next hbuckets =>
  split at hgrow
  · cases hgrow
  next hsize =>
  split at hgrow
  · cases hgrow
  next hmore =>
  obtain rfl := Resize.grow.inj hgrow
  dsimp only
  -- a sum that wraps is less than what was added
  have hn : (h.n_entries + entries_add).toNat = h.n_entries.toNat + entries_add.toNat := by
    rw [UInt32.lt_iff_toNat_lt, UInt32.toNat_add] at hentries
    rw [UInt32.toNat_add]
    have := h.n_entries.toNat_lt
    omega
  generalize h.n_entries + entries_add = n at *
  have hm : (n + n / (INV_KEEP_FREE - 1)).toNat = n.toNat + n.toNat / 4 := by
    have hfour : (INV_KEEP_FREE - 1).toNat = 4 := by decide
    rw [UInt32.lt_iff_toNat_lt, UInt32.toNat_add, UInt32.toNat_div, hfour] at hbuckets
    rw [UInt32.toNat_add, UInt32.toNat_div, hfour]
    omega
  generalize n + n / (INV_KEEP_FREE - 1) = m at *
  have hbound : m.toNat * h.type.bucket_size.toNat ≤ 4294967295 := by
    have hpos : 0 < h.type.bucket_size.toNat := by cases h.type <;> decide
    rw [← le_div_iff_mul_le hpos]
    have := UInt64.le_iff_toNat_le.mp (UInt64.not_lt.mp hsize)
    simpa [UINT_MAX] using this
  have hproduct : (m.toUInt64 * h.type.bucket_size).toNat
      = m.toNat * h.type.bucket_size.toNat := by
    rw [UInt64.toNat_mul, UInt32.toNat_toUInt64]
    omega
  exact ⟨hn, hm, hproduct, by omega, UInt32.not_le.mp hmore, rfl⟩

/-- The shift is the one that the size needs. -/
theorem new_shift_spec : max g.size.toNat 78 ≤ 2 ^ g.new_shift.toNat ∧
      2 ^ g.new_shift.toNat < 2 * max g.size.toNat 78 := by
  obtain ⟨-, -, -, hlt, -, hshift⟩ := grow_exact hgrow
  have htwice : (2 * sizeof_direct_storage).toNat = 78 := by decide
  have hmax : (max g.size (2 * sizeof_direct_storage)).toUInt32.toNat = max g.size.toNat 78 := by
    have hle : (max g.size (2 * sizeof_direct_storage)).toNat = max g.size.toNat 78 := by
      change (if g.size ≤ 2 * sizeof_direct_storage then 2 * sizeof_direct_storage
        else g.size).toNat = _
      split
      · next hle => exact (Nat.max_eq_right (UInt64.le_iff_toNat_le.mp hle)).symm
      · next hle =>
        have hge := UInt64.le_of_lt (UInt64.not_le.mp hle)
        exact (Nat.max_eq_left (UInt64.le_iff_toNat_le.mp hge)).symm
    rw [UInt64.toNat_toUInt32]
    omega
  generalize (max g.size (2 * sizeof_direct_storage)).toUInt32 = x at *
  obtain ⟨hle, hgt⟩ := le_round_up (x := x) (by omega)
  have hr : (log2u_round_up x).toNat < 33 := by
    by_contra hge
    have := Nat.pow_le_pow_right (by omega : 0 < 2) (Nat.not_lt.mp hge)
    omega
  have heq : g.new_shift.toNat = (log2u_round_up x).toNat := by
    rw [hshift, UInt32.toNat_toUInt8]
    omega
  rw [heq, ← hmax]
  exact ⟨hle, hgt⟩

/-- The shift is defined as long as the size is at most the largest power of two
    there is. -/
theorem new_shift_lt : g.new_shift.toNat < 32 ↔ g.size.toNat ≤ 2 ^ 31 := by
  obtain ⟨hle, hgt⟩ := new_shift_spec hgrow
  constructor
  · intro hlt
    have := Nat.pow_le_pow_right (by omega : 0 < 2) (Nat.le_of_lt_succ hlt)
    omega
  · intro hsize
    by_contra hge
    have := Nat.pow_le_pow_right (by omega : 0 < 2) (Nat.not_lt.mp hge)
    omega

end

/-- The buckets that fit into the storage. -/
theorem n_buckets_toNat {type : HashmapType} {m : UInt32} (h : g.n_buckets type = some m) :
    g.new_shift.toNat < 32 ∧ m.toNat = 2 ^ g.new_shift.toNat / type.bucket_size.toNat := by
  unfold Growth.n_buckets at h
  split at h
  · next hshift =>
    have hlt : g.new_shift.toNat < 32 := UInt8.lt_iff_toNat_lt.mp hshift
    have hpow : 2 ^ g.new_shift.toNat ≤ 2 ^ 31 :=
      Nat.pow_le_pow_right (by omega) (Nat.le_of_lt_succ hlt)
    cases h
    refine ⟨hlt, ?_⟩
    rw [UInt64.toNat_toUInt32, UInt64.toNat_div, UInt32.toNat_toUInt64, UInt32.toNat_shiftLeft,
      UInt8.toNat_toUInt32, Nat.mod_eq_of_lt hlt, UInt32.toNat_one, Nat.one_shiftLeft,
      Nat.mod_eq_of_lt (by omega : 2 ^ g.new_shift.toNat < 2 ^ 32)]
    exact Nat.mod_eq_of_lt (Nat.lt_of_le_of_lt (Nat.div_le_self _ _) (by omega))
  · cases h

/-- The buckets that fit into the storage are enough. -/
theorem n_buckets_enough (hgrow : resize_buckets_size h entries_add = .grow g)
    (hshift : g.new_shift.toNat < 32) :
    ∃ m, g.n_buckets h.type = some m ∧ g.new_n_buckets ≤ m ∧ g.new_n_entries < m := by
  obtain ⟨-, hbuckets, hsize, -, -, -⟩ := grow_exact hgrow
  obtain ⟨hle, -⟩ := new_shift_spec hgrow
  obtain ⟨m, hm⟩ : ∃ m, g.n_buckets h.type = some m :=
    ⟨_, if_pos (UInt8.lt_iff_toNat_lt.mpr hshift)⟩
  refine ⟨m, hm, ?_⟩
  obtain ⟨-, hvalue⟩ := n_buckets_toNat hm
  have hmore : 128 ≤ 2 ^ g.new_shift.toNat := by
    have hseven : 7 ≤ g.new_shift.toNat := by
      by_contra hlt
      have := Nat.pow_le_pow_right (by omega : 0 < 2) (Nat.le_of_lt_succ (Nat.not_le.mp hlt))
      omega
    exact Nat.pow_le_pow_right (by omega : 0 < 2) hseven
  rw [UInt32.le_iff_toNat_le, UInt32.lt_iff_toNat_lt, hvalue]
  have hpos : 0 < h.type.bucket_size.toNat ∧ h.type.bucket_size.toNat ≤ 25 := by
    cases h.type <;> decide
  have henough : g.new_n_buckets.toNat ≤ 2 ^ g.new_shift.toNat / h.type.bucket_size.toNat := by
    rw [le_div_iff_mul_le hpos.1]
    omega
  by_cases hfew : g.new_n_entries.toNat < 4
  · -- the smallest storage has more than three buckets
    have : 3 < 2 ^ g.new_shift.toNat / h.type.bucket_size.toNat := by
      rw [lt_iff_add_one_le, le_div_iff_mul_le hpos.1]
      omega
    omega
  · omega

/-- When the arithmetic is exact: the storage is at most 2^31 bytes. -/
theorem growth_exact_iff (hgrow : resize_buckets_size h entries_add = .grow g) :
    g.Exact h entries_add ↔ storage_needed h entries_add ≤ 2 ^ 31 := by
  obtain ⟨hentries, hbuckets, hsize, hunsigned, hmore, -⟩ := grow_exact hgrow
  have hneeded : storage_needed h entries_add = g.size.toNat := by
    rw [hsize, hbuckets, hentries]
    rfl
  rw [hneeded, ← new_shift_lt hgrow]
  constructor
  · intro hexact
    exact hexact.shift
  · intro hshift
    obtain ⟨m, hm, henough, hover⟩ := n_buckets_enough hgrow hshift
    exact {
      entries := hentries
      buckets := hbuckets
      size := hsize
      unsigned := hunsigned
      shift := hshift
      enough := ⟨m, hm, henough, UInt32.lt_of_lt_of_le hmore henough, hover⟩ }

/-- A table that grows for its fifth entry. -/
theorem growth_exact_small :
    Growth.Exact ⟨.set, false, 4, 0⟩ 1 ⟨5, 6, 54, 7⟩ :=
  (growth_exact_iff (by decide)).mpr (by decide)

/-- A table that does not fit into 2^31 bytes any more is shifted by 32. -/
theorem shift_undefined :
    ∃ g, resize_buckets_size ⟨.plain, true, 101058054, 126322567⟩ 1 = .grow g ∧
      g.new_shift = 32 ∧ ¬ g.Exact ⟨.plain, true, 101058054, 126322567⟩ 1 := by
  refine ⟨⟨101058055, 126322568, 2147483656, 32⟩, by decide, rfl, ?_⟩
  intro hexact
  exact absurd hexact.shift (by decide)

end SdCompat.Hashmap
