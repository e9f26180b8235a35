import Mathlib.Data.List.Basic
import Mathlib.Tactic.Ring

/-! # Numbers as bytes, and alignment

    Fixed-width numbers in either byte order, reading them back, replacing a
    part of a buffer, and rounding an offset up to a multiple.
-/

namespace Bytes

open Nat

/-! ## Section 1: Byte order -/

/-- The two byte orders. -/
inductive Endian where
  | little | big
  deriving DecidableEq, Repr

/-- The number in `w` bytes, the lowest byte first. -/
def ofNatLE : Nat → Nat → List UInt8
  | 0, _ => []
  | w + 1, n => n.toUInt8 :: ofNatLE w (n / 256)

/-- The number whose bytes these are, the lowest byte first. -/
def toNatLE : List UInt8 → Nat
  | [] => 0
  | b :: bs => b.toNat + 256 * toNatLE bs

/-- The number in `w` bytes. -/
def ofNat (e : Endian) (w n : Nat) : List UInt8 :=
  match e with
  | .little => ofNatLE w n
  | .big => (ofNatLE w n).reverse

/-- The number whose bytes these are. -/
def toNat (e : Endian) (bs : List UInt8) : Nat :=
  match e with
  | .little => toNatLE bs
  | .big => toNatLE bs.reverse

@[simp] theorem length_ofNatLE (w n : Nat) : (ofNatLE w n).length = w := by
  induction w generalizing n with
  | zero => rfl
  | succ w ih => simp [ofNatLE, ih]

@[simp] theorem length_ofNat (e : Endian) (w n : Nat) : (ofNat e w n).length = w := by
  cases e <;> simp [ofNat]

variable {n : Nat}

/-- A number that fits is read back. -/
theorem toNatLE_ofNatLE {w : Nat} (h : n < 256 ^ w) : toNatLE (ofNatLE w n) = n := by
  induction w generalizing n with
  | zero =>
    have : n = 0 := by simpa using h
    simp [ofNatLE, toNatLE, this]
  | succ w ih =>
    have hdiv : n / 256 < 256 ^ w := by
      rw [div_lt_iff_lt_mul (by omega)]
      calc n < 256 ^ (w + 1) := h
        _ = 256 ^ w * 256 := pow_succ ..
    rw [ofNatLE, toNatLE, ih hdiv]
    have hlow : n.toUInt8.toNat = n % 256 := by simp
    omega

/-- Bytes give a number that fits. -/
theorem toNatLE_lt (bs : List UInt8) : toNatLE bs < 256 ^ bs.length := by
  induction bs with
  | nil => simp [toNatLE]
  | cons b bs ih =>
    have hb : b.toNat < 256 := b.toNat_lt
    have hpow : 256 ^ (b :: bs).length = 256 * 256 ^ bs.length := by
      rw [List.length_cons, pow_succ, mul_comm]
    rw [toNatLE]
    omega

/-- A number that fits is read back. -/
theorem toNat_ofNat (e : Endian) {w : Nat} (h : n < 256 ^ w) : toNat e (ofNat e w n) = n := by
  cases e with
  | little => exact toNatLE_ofNatLE h
  | big => simpa [toNat, ofNat] using toNatLE_ofNatLE h

theorem toNat_lt (e : Endian) (bs : List UInt8) : toNat e bs < 256 ^ bs.length := by
  cases e with
  | little => exact toNatLE_lt bs
  | big => simpa [toNat] using toNatLE_lt bs.reverse

/-! ## Section 2: Parts of a buffer -/

/-- The `n` bytes at offset `i`. -/
def slice (buf : List UInt8) (i n : Nat) : List UInt8 := (buf.drop i).take n

variable {buf : List UInt8} {i : Nat}

theorem length_slice (h : i + n ≤ buf.length) : (slice buf i n).length = n := by
  simp [slice]; omega

/-- The part in the middle of three. -/
theorem slice_middle (a b c : List UInt8) : slice (a ++ b ++ c) a.length b.length = b := by
  simp [slice]

/-- What is in a buffer stays where it is when more follows. -/
theorem slice_append_left {a b : List UInt8} (h : i + n ≤ a.length) :
    slice (a ++ b) i n = slice a i n := by
  unfold slice
  rw [List.drop_append_of_le_length (by omega), List.take_append_of_le_length]
  rw [List.length_drop]
  omega

/-- The buffer with the bytes at offset `i` replaced. -/
def replace (buf : List UInt8) (i : Nat) (bs : List UInt8) : List UInt8 :=
  buf.take i ++ bs ++ buf.drop (i + bs.length)

theorem length_replace {bs : List UInt8} (h : i + bs.length ≤ buf.length) :
    (replace buf i bs).length = buf.length := by
  simp [replace]; omega

/-- Replacing the part in the middle of three. -/
theorem replace_middle (a b c b' : List UInt8) (h : b'.length = b.length) :
    replace (a ++ b ++ c) a.length b' = a ++ b' ++ c := by
  simp [replace, h]

/-! ## Section 3: Alignment -/

/-- `n` rounded up to a multiple of `a`. -/
def alignTo (n a : Nat) : Nat := (n + (a - 1)) / a * a

variable {a : Nat}

theorem le_alignTo (ha : 0 < a) : n ≤ alignTo n a := by
  unfold alignTo
  have h := div_add_mod (n + (a - 1)) a
  have hlt := mod_lt (n + (a - 1)) ha
  rw [mul_comm] at h
  omega

theorem alignTo_lt (ha : 0 < a) : alignTo n a < n + a := by
  unfold alignTo
  have h := div_mul_le_self (n + (a - 1)) a
  omega

variable {k : Nat}

theorem alignTo_mono (a : Nat) (h : n ≤ k) : alignTo n a ≤ alignTo k a :=
  Nat.mul_le_mul_right a (Nat.div_le_div_right (by omega))

theorem dvd_alignTo (n a : Nat) : a ∣ alignTo n a := Dvd.intro_left _ rfl

/-- A multiple is left alone. -/
theorem alignTo_of_dvd (ha : 0 < a) (h : a ∣ n) : alignTo n a = n := by
  obtain ⟨k, rfl⟩ := h
  unfold alignTo
  have hdiv : (a * k + (a - 1)) / a = k := by
    rw [mul_add_div ha, div_eq_of_lt (by omega), add_zero]
  rw [hdiv, mul_comm]

@[simp] theorem alignTo_one (n : Nat) : alignTo n 1 = n := alignTo_of_dvd one_pos (one_dvd n)

/-- Alignment does not notice a shift by a multiple. -/
theorem alignTo_add (ha : 0 < a) (hk : a ∣ k) : alignTo (k + n) a = k + alignTo n a := by
  obtain ⟨j, rfl⟩ := hk
  unfold alignTo
  rw [add_assoc, mul_add_div ha, add_mul, mul_comm j a]

/-- The padding before an aligned offset. -/
def padding (n a : Nat) : Nat := alignTo n a - n

theorem add_padding (ha : 0 < a) : n + padding n a = alignTo n a :=
  Nat.add_sub_cancel' (le_alignTo ha)

theorem padding_add (ha : 0 < a) (hk : a ∣ k) : padding (k + n) a = padding n a := by
  unfold padding
  rw [alignTo_add ha hk]
  omega

/-- The zeroes up to the next multiple of `a`. -/
def zeroes (pos a : Nat) : List UInt8 := List.replicate (padding pos a) 0

@[simp] theorem length_zeroes (pos a : Nat) : (zeroes pos a).length = padding pos a := by
  simp [zeroes]

@[simp] theorem zeroes_one (pos : Nat) : zeroes pos 1 = [] := by
  simp [zeroes, padding]

/-! ## Section 4: What a buffer has at an offset -/

/-- The buffer has these bytes at this offset. -/
def At (buf : List UInt8) (pos : Nat) (bs : List UInt8) : Prop :=
  ∃ a c, buf = a ++ bs ++ c ∧ a.length = pos

namespace At

variable {buf bs bs' : List UInt8} {pos : Nat}

theorem left (h : At buf pos (bs ++ bs')) : At buf pos bs := by
  obtain ⟨a, c, rfl, rfl⟩ := h
  exact ⟨a, bs' ++ c, by simp, rfl⟩

theorem right (h : At buf pos (bs ++ bs')) : At buf (pos + bs.length) bs' := by
  obtain ⟨a, c, rfl, rfl⟩ := h
  exact ⟨a ++ bs, c, by simp, by simp⟩

theorem le (h : At buf pos bs) : pos + bs.length ≤ buf.length := by
  obtain ⟨a, c, rfl, rfl⟩ := h
  simp

theorem slice_eq (h : At buf pos bs) : slice buf pos bs.length = bs := by
  obtain ⟨a, c, rfl, rfl⟩ := h
  exact slice_middle a bs c

/-- The whole buffer. -/
theorem self (buf : List UInt8) : At buf 0 buf := ⟨[], [], by simp, rfl⟩

end At

end Bytes
