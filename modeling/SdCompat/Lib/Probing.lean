import Mathlib.Logic.Function.Basic
import Mathlib.Tactic.SplitIfs

/-! # Robin Hood probing on a ring

    The buckets of an open hash table are the positions `0` to `n - 1` of a
    ring. The weight of a bucket is zero if the bucket is free, else one more
    than the distance of its entry from the bucket that the entry hashes to.

    * `Probed`: from one bucket to the next the weight grows by one at most;
    * `Probed.raise`: an entry may take a bucket from a lighter one;
    * `Hole`: one bucket is given up, and those behind it move up.
-/

namespace Probing

open Function Nat

/-! ## Section 1: Positions on a ring -/

/-- The position behind another one. -/
def next (n i : Nat) : Nat := (i + 1) % n

/-- The position before another one. -/
def prev (n i : Nat) : Nat := (n + i - 1) % n

/-- How far a position is behind another one. -/
def dist (n i start : Nat) : Nat := if start ≤ i then i - start else n + i - start

/-- The position that is `j` behind another one. -/
def along (n i j : Nat) : Nat := (i + j) % n

section ring
variable {n i j k p start : Nat}

section
variable (hi : i < n)
include hi

theorem along_eq (hj : j ≤ n) : along n i j = if i + j < n then i + j else i + j - n := by
  unfold along
  split
  · next h => exact Nat.mod_eq_of_lt h
  · next h =>
    rw [Nat.mod_eq_sub_mod (Nat.not_lt.mp h), Nat.mod_eq_of_lt (by omega)]

theorem next_eq : next n i = if i + 1 < n then i + 1 else 0 := by
  change along n i 1 = _
  rw [along_eq hi (by omega)]
  split
  · rfl
  · omega

theorem prev_eq : prev n i = if i = 0 then n - 1 else i - 1 := by
  unfold prev
  split
  · next h =>
    subst h
    rw [Nat.add_zero, Nat.mod_eq_of_lt (by omega)]
  · next h =>
    rw [Nat.mod_eq_sub_mod (by omega), Nat.mod_eq_of_lt (by omega)]
    omega

theorem next_lt : next n i < n := mod_lt _ (zero_lt_of_lt hi)

theorem along_lt : along n i j < n := mod_lt _ (zero_lt_of_lt hi)

theorem prev_next : prev n (next n i) = i := by
  rw [prev_eq (next_lt hi), next_eq hi]
  by_cases h : i + 1 < n
  · rw [if_pos h]
    rfl
  · rw [if_neg h, if_pos rfl]
    omega

theorem along_zero : along n i 0 = i := mod_eq_of_lt hi

theorem along_self : along n i n = i := by
  unfold along
  rw [add_mod_right, mod_eq_of_lt hi]

end

theorem along_next : along n (next n i) j = along n i (j + 1) := by
  unfold along next
  rw [mod_add_mod]
  congr 1
  omega

theorem next_along : next n (along n i j) = along n i (j + 1) := by
  unfold along next
  rw [mod_add_mod]
  rfl

/-- Positions that are less than a round away differ. -/
theorem along_inj (hi : i < n) (hj : j < n) (hk : k < n) (h : along n i j = along n i k) :
    j = k := by
  rw [along_eq hi (Nat.le_of_lt hj), along_eq hi (Nat.le_of_lt hk)] at h
  split_ifs at h <;> omega

theorem dist_lt (hi : i < n) (hs : start < n) : dist n i start < n := by
  unfold dist
  split <;> omega

theorem dist_self : dist n i i = 0 := by
  unfold dist
  rw [if_pos (Nat.le_refl i), Nat.sub_self]

theorem along_dist (hi : i < n) (hs : start < n) : along n start (dist n i start) = i := by
  rw [along_eq hs (Nat.le_of_lt (dist_lt hi hs))]
  unfold dist
  split_ifs <;> omega

theorem dist_along (hs : start < n) (hj : j < n) : dist n (along n start j) start = j :=
  along_inj hs (dist_lt (along_lt hs) hs) hj (along_dist (along_lt hs) hs)

theorem exists_along (hi : i < n) (hp : p < n) : ∃ j, j < n ∧ along n p j = i :=
  ⟨dist n i p, dist_lt hi hp, along_dist hi hp⟩

theorem dist_next (hi : i < n) (hs : start < n) (h : dist n i start + 1 < n) :
    dist n (next n i) start = dist n i start + 1 := by
  have halong : next n i = along n start (dist n i start + 1) := by
    rw [← next_along, along_dist hi hs]
  rw [halong, dist_along hs h]

end ring

/-! ## Section 2: The invariant -/

/-- From one bucket to the next the weight grows by one at most. -/
def Probed (n : Nat) (w : Nat → Nat) : Prop := ∀ i < n, w (next n i) ≤ w i + 1

section probed
variable {n i j v : Nat} {w w' : Nat → Nat}

theorem Probed.congr (h : Probed n w) (heq : ∀ i < n, w' i = w i) : Probed n w' := by
  intro i hi
  rw [heq i hi, heq _ (next_lt hi)]
  exact h i hi

/-- The weight grows by the number of the steps at most. -/
theorem Probed.along (h : Probed n w) (hi : i < n) (j : Nat) : w (along n i j) ≤ w i + j := by
  induction j with
  | zero =>
    rw [along_zero hi]
    exact Nat.le_refl _
  | succ j ih =>
    have hstep := h _ (along_lt hi : Probing.along n i j < n)
    rw [next_along] at hstep
    omega

/-- A bucket may become heavier, if the one before it bears it. -/
theorem Probed.raise (h : Probed n w) (hi : i < n) (hle : w i ≤ v) (hprev : v ≤ w (prev n i) + 1) :
    Probed n (update w i v) := by
  intro j hj
  by_cases hnext : next n j = i
  · -- the bucket before it
    rw [hnext, update_self]
    have hj' : prev n i = j := by rw [← hnext, prev_next hj]
    rw [hj'] at hprev
    by_cases hij : j = i
    · rw [hij, update_self]
      omega
    · rw [update_of_ne hij]
      exact hprev
  · rw [update_of_ne hnext]
    have hstep := h j hj
    by_cases hij : j = i
    · subst hij
      rw [update_self]
      omega
    · rwa [update_of_ne hij]

end probed

/-! ## Section 3: A hole -/

/-- The bucket `p` has been given up. Its entry had the weight `c`, and the
    buckets behind it, up to `stop`, are still to move up by one. -/
structure Hole (n : Nat) (w : Nat → Nat) (p c stop : Nat) : Prop where
  lt : p < n
  stop_lt : stop < n
  free : w p = 0
  probed : ∀ i < n, i ≠ p → w (next n i) ≤ w i + 1
  behind : w (next n p) ≤ c + 1
  before : c ≤ w (prev n p) + 1
  light : stop ≠ p → w stop ≤ 1
  last : stop = p → c ≤ 1

section hole
variable {n p c stop : Nat} {w : Nat → Nat}

end hole

end Probing
