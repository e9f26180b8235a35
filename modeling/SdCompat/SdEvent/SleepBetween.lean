import SdCompat.Basic.Common

/-! # When to wake up for the timers (sd-event.c)

    `sleep_between` picks a time between that of the earliest timer and that
    until which it may wait, such that the wakeups of a system coincide.

    The arithmetic of `usec_t` is a parameter: the one of C wraps around, the
    other one stops where that would happen.
-/

namespace SdCompat.SleepBetween

open UInt64 List Outcome
open Nat (div_mul_le_self lt_div_mul_add mod_eq_of_lt mod_eq_sub_mod mod_lt mul_add_mod
  sub_mod_eq_zero_of_mod_eq)

/-- `usec_t` -/
abbrev Usec := UInt64

def USEC_INFINITY : Usec := 0xffffffffffffffff
def USEC_PER_MSEC : Usec := 1000
def USEC_PER_SEC : Usec := 1000000
def USEC_PER_MINUTE : Usec := 60 * USEC_PER_SEC

/-! ## Section 1: The functions of the source -/

/-- Addition and subtraction. -/
structure Arith where
  add : Usec → Usec → Outcome Usec
  sub : Usec → Usec → Outcome Usec

/-- That of C. -/
def wrapping : Arith := ⟨fun x y => .ok (x + y), fun x y => .ok (x - y)⟩

/-- Nothing wraps around. -/
def checked : Arith where
  add x y := if x.toNat + y.toNat < UInt64.size then .ok (x + y) else .abort
  sub x y := if y ≤ x then .ok (x - y) else .abort

/-- `initialize_perturb`: the perturbation. `id` is what `sd_id128_get_boot` or
    `sd_id128_get_machine` gives. -/
def initialize_perturb (perturb : Usec) (id : Option (UInt64 × UInt64)) : Usec :=
  if perturb ≠ USEC_INFINITY then perturb
  else match id with
    | some qwords => (qwords.1 ^^^ qwords.2) % USEC_PER_MINUTE
    | none => 0

section code
variable (r : Arith) (a b : Usec)

/-- One of the four steps of `sleep_between`: the time that it returns, if it
    does. -/
def align (unit offset : Usec) : Outcome (Option Usec) := do
  let c ← r.add (b / unit * unit) offset
  if b ≤ c then
    if c < unit then .ok (some b)
    else do
      let c ← r.sub c unit
      .ok (if a ≤ c then some c else none)
  else .ok (if a ≤ c then some c else none)

/-- The next step, unless this one has returned. -/
def or_else (step : Outcome (Option Usec)) (rest : Outcome Usec) : Outcome Usec := do
  match ← step with
  | some c => .ok c
  | none => rest

def sleep_between (e_perturb : Usec) (id : Option (UInt64 × UInt64)) : Outcome Usec :=
  if ¬ a ≤ b then .abort
  else if a ≤ 0 then .ok 0
  else if USEC_INFINITY ≤ a then .ok USEC_INFINITY
  else do
    let next ← r.add a 1
    if b ≤ next then .ok a
    else
      let perturb := initialize_perturb e_perturb id
      or_else (align r a b USEC_PER_MINUTE perturb) <|
      or_else (align r a b (USEC_PER_SEC * 10) (perturb % (USEC_PER_SEC * 10))) <|
      or_else (align r a b USEC_PER_SEC (perturb % USEC_PER_SEC)) <|
      or_else (align r a b (USEC_PER_MSEC * 250) (perturb % (USEC_PER_MSEC * 250))) <|
      .ok b

end code

/-! ## Section 2: The last time of a unit -/

/-- No time from `a` on and before `b` is at this place in its unit. -/
def Missed (a b unit place : Nat) : Prop := ∀ t, a ≤ t → t < b → t % unit ≠ place % unit

/-- The place that a step takes in the unit of `b` is a number of 64 bits. -/
def Holds (b unit place : Nat) : Prop := b / unit * unit + place % unit < UInt64.size

/-- What these units need for nothing to wrap around: for each of them such that
    all the greater ones have no time to offer, the place in the unit of `b` is a
    number of 64 bits. -/
def FitsFrom (perturb a b : Usec) (us : List Usec) : Prop :=
  ∀ greater unit smaller, us = greater ++ unit :: smaller →
    (∀ u ∈ greater, Missed a.toNat b.toNat u.toNat perturb.toNat) →
    Holds b.toNat unit.toNat perturb.toNat

/-- The units of the code. -/
def units : List Usec :=
  [USEC_PER_MINUTE, USEC_PER_SEC * 10, USEC_PER_SEC, USEC_PER_MSEC * 250]

/-- The condition: there is only one time to choose, or nothing wraps around for
    the units. -/
def Fits (perturb a b : Usec) : Prop :=
  a = 0 ∨ b.toNat ≤ a.toNat + 1 ∨ FitsFrom perturb a b units

section nat
variable {a b c t unit place : Nat}

/-- The times at a place in the unit are a unit apart. -/
theorem mod_eq_apart (hc : c % unit = t % unit) (hlt : c < t) : c + unit ≤ t := by
  by_contra hnot
  have hsub : (t - c) % unit = 0 := sub_mod_eq_zero_of_mod_eq hc.symm
  rw [mod_eq_of_lt (by omega)] at hsub
  omega

/-- With the last such time before `a`, there is none. -/
theorem Missed.of_last (hc : c % unit = place % unit) (hca : c < a) (hbc : b ≤ c + unit) :
    Missed a b unit place := by
  intro t hat htb heq
  have hapart := mod_eq_apart (hc.trans heq.symm) (Nat.lt_of_lt_of_le hca hat)
  omega

theorem mod_add_mul (k : Nat) (hplace : place < unit) : (k * unit + place) % unit = place := by
  rw [mul_comm, mul_add_mod, mod_eq_of_lt hplace]

theorem Holds.of_small (hb : b < 60000000) (hpos : 0 < unit) (hunit : unit ≤ 60000000) :
    Holds b unit place := by
  have hfloor := div_mul_le_self b unit
  have hplace := mod_lt place hpos
  unfold Holds size
  omega

end nat

/-! ## Section 3: One step -/

section step
variable {a b unit place : Usec}

/-- The begin of the unit of `b`. -/
theorem floor_toNat (b unit : Usec) :
    (b / unit * unit).toNat = b.toNat / unit.toNat * unit.toNat := by
  have hle := div_mul_le_self b.toNat unit.toNat
  rw [UInt64.toNat_mul, UInt64.toNat_div, mod_eq_of_lt (by have := b.toNat_lt; omega)]

/-- What a step has found. -/
structure Found (a b unit place c : Usec) : Prop where
  ge : a ≤ c
  le : c ≤ b
  spot : Holds b.toNat unit.toNat place.toNat →
    c < b ∧ c.toNat % unit.toNat = place.toNat % unit.toNat ∨ b < unit

/-- A step of the code, with the wraparound that there may be: it never leaves
    the interval. -/
theorem align_wrapping (place : Usec) (hpos : 0 < unit.toNat) (hab : a ≤ b) :
    ∃ found, align wrapping a b unit (place % unit) = .ok found ∧
      (∀ c, found = some c → Found a b unit place c) ∧
      (found = none → Holds b.toNat unit.toNat place.toNat →
        Missed a.toNat b.toNat unit.toNat place.toNat) := by
  have hplace : (place % unit).toNat = place.toNat % unit.toNat := UInt64.toNat_mod ..
  have hlt := mod_lt place.toNat hpos
  have hfloor := floor_toNat b unit
  have hle := div_mul_le_self b.toNat unit.toNat
  have hnext : b.toNat < b.toNat / unit.toNat * unit.toNat + unit.toNat := by
    have := lt_div_mul_add (a := b.toNat) hpos
    omega
  have hspot := mod_add_mul (b.toNat / unit.toNat) hlt
  generalize hc : b / unit * unit + place % unit = c
  have hsum : c.toNat =
      (b.toNat / unit.toNat * unit.toNat + place.toNat % unit.toNat) % UInt64.size := by
    rw [← hc, UInt64.toNat_add, hfloor, hplace]
  -- where the sum wraps around, it is less than a unit then
  have hcases : (Holds b.toNat unit.toNat place.toNat →
      c.toNat = b.toNat / unit.toNat * unit.toNat + place.toNat % unit.toNat) ∧
      (¬ Holds b.toNat unit.toNat place.toNat → c.toNat < unit.toNat) := by
    refine ⟨fun hfit => hsum.trans (mod_eq_of_lt hfit), fun hwrap => ?_⟩
    have hb := b.toNat_lt
    unfold Holds at hwrap
    unfold size at hwrap hsum
    omega
  have halign : align wrapping a b unit (place % unit) = .ok (
      if b ≤ c then if c < unit then some b else if a ≤ c - unit then some (c - unit) else none
      else if a ≤ c then some c else none) := by
    unfold align wrapping
    rw [ok_bind, hc]
    split
    · split
      · rfl
      · rw [ok_bind]
    · rfl
  rw [halign]
  refine ⟨_, rfl, ?_, ?_⟩
  · intro found hfound
    by_cases hbc : b ≤ c
    · rw [if_pos hbc] at hfound
      by_cases hcu : c < unit
      · rw [if_pos hcu] at hfound
        cases hfound
        exact ⟨hab, UInt64.le_refl _, fun _ => .inr (UInt64.lt_of_le_of_lt hbc hcu)⟩
      · rw [if_neg hcu] at hfound
        -- one unit before, at the same place
        have hfit : Holds b.toNat unit.toNat place.toNat := by
          by_contra hwrap
          exact hcu (lt_iff_toNat_lt.mpr (hcases.2 hwrap))
        have hval := hcases.1 hfit
        have hunit := UInt64.not_lt.mp hcu
        have hback := UInt64.toNat_sub_of_le _ _ hunit
        rw [le_iff_toNat_le] at hunit
        have hless : c - unit < b := by
          rw [lt_iff_toNat_lt]
          omega
        split at hfound
        · next hac =>
          cases hfound
          refine ⟨hac, UInt64.le_of_lt hless, fun _ => .inl ⟨hless, ?_⟩⟩
          rw [hback, ← mod_eq_sub_mod hunit, hval, hspot]
        · cases hfound
    · rw [if_neg hbc] at hfound
      have hless := UInt64.not_le.mp hbc
      split at hfound
      · next hac =>
        cases hfound
        refine ⟨hac, UInt64.le_of_lt hless, fun hfit => .inl ⟨hless, ?_⟩⟩
        rw [hcases.1 hfit, hspot]
      · cases hfound
  · intro hnone hfit
    have hval := hcases.1 hfit
    split at hnone
    · split at hnone
      · cases hnone
      · next hbc hcu =>
        have hunit := UInt64.not_lt.mp hcu
        have hback := UInt64.toNat_sub_of_le _ _ hunit
        rw [le_iff_toNat_le] at hunit
        split at hnone
        · cases hnone
        · next hac =>
          have hca := UInt64.lt_iff_toNat_lt.mp (UInt64.not_le.mp hac)
          refine Missed.of_last (c := (c - unit).toNat) ?_ hca ?_
          · rw [hback, ← mod_eq_sub_mod hunit, hval, hspot]
          · rw [le_iff_toNat_le] at hbc
            omega
    · split at hnone
      · cases hnone
      · next hbc hac =>
        have hca := UInt64.lt_iff_toNat_lt.mp (UInt64.not_le.mp hac)
        refine Missed.of_last (c := c.toNat) ?_ hca ?_
        · rw [hval, hspot]
        · omega

/-- The step that stops instead of wrapping around. -/
theorem align_checked (a b unit place : Usec) : (Holds b.toNat unit.toNat place.toNat →
      align checked a b unit (place % unit) = align wrapping a b unit (place % unit)) ∧
    (¬ Holds b.toNat unit.toNat place.toNat → align checked a b unit (place % unit) = .abort) := by
  have hsum : (b / unit * unit).toNat + (place % unit).toNat =
      b.toNat / unit.toNat * unit.toNat + place.toNat % unit.toNat := by
    rw [floor_toNat, UInt64.toNat_mod]
  unfold align checked wrapping Holds
  dsimp only
  rw [hsum]
  constructor
  · intro hfit
    rw [if_pos hfit, ok_bind, ok_bind]
    split
    · split
      · rfl
      · next hcu => rw [if_pos (UInt64.not_lt.mp hcu)]
    · rfl
  · intro hwrap
    rw [if_neg hwrap]
    rfl

end step

/-! ## Section 4: All the steps -/

/-- The steps of `sleep_between`, one for each of these units. -/
def first_aligned (r : Arith) (a b perturb : Usec) : List Usec → Outcome Usec
  | [] => .ok b
  | unit :: smaller =>
    or_else (align r a b unit (perturb % unit)) (first_aligned r a b perturb smaller)

section run
variable {a b perturb : Usec}

theorem fitsFrom_cons (unit : Usec) (smaller : List Usec) :
    FitsFrom perturb a b (unit :: smaller) ↔ Holds b.toNat unit.toNat perturb.toNat ∧
      (Missed a.toNat b.toNat unit.toNat perturb.toNat → FitsFrom perturb a b smaller) := by
  constructor
  · intro hfits
    refine ⟨hfits [] unit smaller rfl (by simp), ?_⟩
    intro hmissed greater u rest heq hall
    refine hfits (unit :: greater) u rest (by rw [heq]; rfl) ?_
    intro v hv
    rcases mem_cons.mp hv with rfl | hv
    · exact hmissed
    · exact hall v hv
  · intro hfits greater u rest heq hall
    cases greater with
    | nil =>
      obtain ⟨rfl, -⟩ := cons.inj heq
      exact hfits.1
    | cons v greater =>
      obtain ⟨rfl, hrest⟩ := cons.inj heq
      have hmissed := hall unit (mem_cons_self ..)
      exact hfits.2 hmissed greater u rest hrest fun w hw => hall w (mem_cons_of_mem _ hw)

/-- The steps leave a time between `a` and `b`. Nothing has wrapped around on the
    way if and only if the times fit. -/
theorem first_aligned_spec (perturb : Usec) (hab : a ≤ b) (us : List Usec)
    (hus : ∀ u ∈ us, 0 < u.toNat ∧ u.toNat ≤ 60000000) :
    ∃ c, first_aligned wrapping a b perturb us = .ok c ∧ a ≤ c ∧ c ≤ b ∧
      (first_aligned checked a b perturb us = .ok c ↔ FitsFrom perturb a b us) := by
  induction us with
  | nil =>
    refine ⟨b, rfl, hab, UInt64.le_refl _, fun _ => ?_, fun _ => rfl⟩
    intro greater unit smaller heq
    exact absurd heq.symm (append_ne_nil_of_right_ne_nil _ (cons_ne_nil _ _))
  | cons unit smaller ih =>
    obtain ⟨hpos, hunit⟩ := hus unit (mem_cons_self ..)
    obtain ⟨c, hc, hac, hcb, hiff⟩ := ih fun u hu => hus u (mem_cons_of_mem _ hu)
    obtain ⟨found, hfound, hsome, hnone⟩ := align_wrapping perturb hpos hab
    obtain ⟨hsame, habort⟩ := align_checked a b unit perturb
    rw [fitsFrom_cons]
    unfold first_aligned
    rw [hfound]
    by_cases hfit : Holds b.toNat unit.toNat perturb.toNat
    · rw [hsame hfit, hfound]
      cases found with
      | none =>
        refine ⟨c, hc, hac, hcb, ?_⟩
        change first_aligned checked a b perturb smaller = .ok c ↔ _
        rw [hiff]
        exact ⟨fun hrest => ⟨hfit, fun _ => hrest⟩, fun hboth => hboth.2 (hnone rfl hfit)⟩
      | some d =>
        obtain ⟨had, hdb, hspot⟩ := hsome d rfl
        refine ⟨d, rfl, had, hdb, fun _ => ⟨hfit, fun hmissed => ?_⟩, fun _ => rfl⟩
        -- there is a time in this unit, or `b` is too small for anything to wrap around
        rcases hspot hfit with ⟨hless, hplace⟩ | hsmall
        · exact absurd hplace (hmissed d.toNat (le_iff_toNat_le.mp had)
            (lt_iff_toNat_lt.mp hless))
        · intro greater u rest heq _
          have hmem : u ∈ smaller := heq ▸ mem_append_right _ (mem_cons_self ..)
          obtain ⟨hupos, hule⟩ := hus u (mem_cons_of_mem _ hmem)
          exact Holds.of_small (Nat.lt_of_lt_of_le hsmall hunit) hupos hule
    · rw [habort hfit]
      have hno : ∀ d, or_else .abort (first_aligned checked a b perturb smaller) = .ok d ↔
          Holds b.toNat unit.toNat perturb.toNat ∧
          (Missed a.toNat b.toNat unit.toNat perturb.toNat → FitsFrom perturb a b smaller) :=
        fun d => ⟨fun hok => (by cases hok), fun hboth => absurd hboth.1 hfit⟩
      cases found with
      | none => exact ⟨c, hc, hac, hcb, hno c⟩
      | some d =>
        obtain ⟨had, hdb, -⟩ := hsome d rfl
        exact ⟨d, rfl, had, hdb, hno d⟩

variable {e_perturb : Usec}

/-- The perturbation is less than a minute once it is initialized. -/
theorem initialize_perturb_lt (id : Option (UInt64 × UInt64))
    (hperturb : e_perturb ≠ USEC_INFINITY → e_perturb < USEC_PER_MINUTE) :
    initialize_perturb e_perturb id < USEC_PER_MINUTE := by
  unfold initialize_perturb
  split
  · next hset => exact hperturb hset
  · split
    · exact UInt64.mod_lt _ (by decide)
    · decide

/-- The code has these steps. -/
theorem sleep_between_eq (r : Arith) {id : Option (UInt64 × UInt64)}
    (hlt : initialize_perturb e_perturb id < USEC_PER_MINUTE) (hab : a ≤ b) (hb : b ≠ USEC_INFINITY) :
    sleep_between r a b e_perturb id =
      if a = 0 then .ok 0
      else r.add a 1 >>= fun next =>
        if b ≤ next then .ok a
        else first_aligned r a b (initialize_perturb e_perturb id) units := by
  have hfinite : ¬ USEC_INFINITY ≤ a := by
    intro hle
    have htop := UInt64.le_iff_toNat_le.mp (UInt64.le_trans hle hab)
    have hmax := b.toNat_lt
    have hinf : USEC_INFINITY.toNat = 18446744073709551615 := by decide
    refine hb (UInt64.toNat_inj.mp ?_)
    omega
  have hzero : a ≤ 0 ↔ a = 0 := UInt64.le_zero_iff
  have hmod : initialize_perturb e_perturb id % USEC_PER_MINUTE = initialize_perturb e_perturb id :=
    UInt64.mod_eq_of_lt hlt
  unfold sleep_between
  rw [if_neg (not_not.mpr hab), if_neg hfinite]
  dsimp only [first_aligned, units]
  rw [hmod]
  simp only [hzero]

theorem units_spec : ∀ u ∈ units, 0 < u.toNat ∧ u.toNat ≤ 60000000 := by
  intro u hu
  unfold units at hu
  simp only [mem_cons, not_mem_nil, or_false] at hu
  rcases hu with rfl | rfl | rfl | rfl
  · decide
  · decide
  · decide
  · decide

/-- The time is never outside of the interval, and nothing wraps around on the
    way to it if and only if the times fit. -/
theorem sleep_between_spec {e_perturb : Usec} {id : Option (UInt64 × UInt64)}
    (hperturb : e_perturb ≠ USEC_INFINITY → e_perturb < USEC_PER_MINUTE)
    (hab : a ≤ b) (hb : b ≠ USEC_INFINITY) :
    ∃ c, sleep_between wrapping a b e_perturb id = .ok c ∧ a ≤ c ∧ c ≤ b ∧
      (sleep_between checked a b e_perturb id = .ok c ↔
        Fits (initialize_perturb e_perturb id) a b) := by
  have hlt := initialize_perturb_lt id hperturb
  rw [sleep_between_eq wrapping hlt hab hb, sleep_between_eq checked hlt hab hb]
  generalize initialize_perturb e_perturb id = perturb at hlt ⊢
  by_cases hzero : a = 0
  · rw [if_pos hzero, if_pos hzero]
    refine ⟨0, rfl, ?_, UInt64.zero_le, fun _ => .inl hzero, fun _ => rfl⟩
    rw [hzero]
    exact UInt64.le_refl _
  -- the successor of `a` is a number of 64 bits
  have hsucc : a.toNat + 1 < size := by
    have hle := UInt64.le_iff_toNat_le.mp hab
    have hfinite : b.toNat ≠ USEC_INFINITY.toNat := fun heq => hb (UInt64.toNat_inj.mp heq)
    have hinf : USEC_INFINITY.toNat = 18446744073709551615 := by decide
    have hmax := b.toNat_lt
    unfold size
    omega
  have hadd : (a + 1).toNat = a.toNat + 1 := by
    rw [UInt64.toNat_add]
    exact mod_eq_of_lt hsucc
  have hchecked : checked.add a 1 = .ok (a + 1) := if_pos hsucc
  have hwrapping : wrapping.add a 1 = .ok (a + 1) := rfl
  have hone : b ≤ a + 1 ↔ b.toNat ≤ a.toNat + 1 := by rw [le_iff_toNat_le, hadd]
  rw [if_neg hzero, if_neg hzero, hchecked, hwrapping, ok_bind, ok_bind]
  by_cases hnext : b ≤ a + 1
  · rw [if_pos hnext, if_pos hnext]
    exact ⟨a, rfl, UInt64.le_refl _, hab, fun _ => .inr (.inl (hone.mp hnext)), fun _ => rfl⟩
  rw [if_neg hnext, if_neg hnext]
  obtain ⟨c, hc, hac, hcb, hiff⟩ := first_aligned_spec perturb hab units units_spec
  refine ⟨c, hc, hac, hcb, hiff.trans ⟨fun hfits => .inr (.inr hfits), ?_⟩⟩
  rintro (heq | hle | hfits)
  · exact absurd heq hzero
  · exact absurd (hone.mpr hle) hnext
  · exact hfits

theorem sleep_between_spec_day :
    ∃ c, sleep_between wrapping 86400000000 86460000000 7000000 none = .ok c ∧
      86400000000 ≤ c ∧ c ≤ 86460000000 ∧
      (sleep_between checked 86400000000 86460000000 7000000 none = .ok c ↔
        Fits (initialize_perturb 7000000 none) 86400000000 86460000000) :=
  sleep_between_spec (by decide) (by decide) (by decide)

/-- A timer that may wait for ever wakes up half a second after the begin of all
    times: the sum has wrapped around. -/
theorem sleep_between_wraps :
    sleep_between wrapping 1 0xfffffffffffffffe 50000000 none = .ok 448384 ∧
    sleep_between checked 1 0xfffffffffffffffe 50000000 none = .abort := by
  decide

/-- The time is at the place in the coarsest of these units that has such a time
    to offer, and `b` if none has. -/
def Coarsest (perturb a b c : Usec) (us : List Usec) : Prop :=
  (c = b ∧ ∀ u ∈ us, Missed a.toNat b.toNat u.toNat perturb.toNat) ∨
  ∃ greater unit smaller, us = greater ++ unit :: smaller ∧
    (∀ u ∈ greater, Missed a.toNat b.toNat u.toNat perturb.toNat) ∧
    c < b ∧ c.toNat % unit.toNat = perturb.toNat % unit.toNat

theorem first_aligned_coarsest (hab : a ≤ b) (hwrap : b.toNat + 60000000 < size) (us : List Usec)
    (hus : ∀ u ∈ us, 0 < u.toNat ∧ u.toNat ≤ 60000000 ∧ u ≤ b) :
    ∃ c, first_aligned wrapping a b perturb us = .ok c ∧ a ≤ c ∧ Coarsest perturb a b c us := by
  induction us with
  | nil => exact ⟨b, rfl, hab, .inl (by simp)⟩
  | cons unit smaller ih =>
    obtain ⟨hpos, hunit, hle⟩ := hus unit (by simp)
    obtain ⟨found, hfound, hsome, hnone⟩ := align_wrapping perturb hpos hab
    have hfit : Holds b.toNat unit.toNat perturb.toNat := by
      have hfloor := div_mul_le_self b.toNat unit.toNat
      have hplace := mod_lt perturb.toNat hpos
      unfold Holds
      omega
    unfold first_aligned
    rw [hfound]
    cases found with
    | some c =>
      obtain ⟨hac, -, hspot⟩ := hsome c rfl
      have hat := (hspot hfit).resolve_right (UInt64.not_lt.mpr hle)
      exact ⟨c, rfl, hac, .inr ⟨[], unit, smaller, rfl, by simp, hat⟩⟩
    | none =>
      have hmissed := hnone rfl hfit
      obtain ⟨c, hc, hac, hcoarsest⟩ := ih fun u hu => hus u (by simp [hu])
      refine ⟨c, hc, hac, ?_⟩
      rcases hcoarsest with ⟨heq, hall⟩ | ⟨greater, u, rest, rfl, hall, hat⟩
      · exact .inl ⟨heq, by simpa [hmissed] using hall⟩
      · exact .inr ⟨unit :: greater, u, rest, rfl, by simpa [hmissed] using hall, hat⟩

/-- The wakeups of those who may wait coincide: everyone takes a time at the same
    place in the coarsest unit that it can wait for. -/
theorem sleep_between_coarsest {e_perturb : Usec} {id : Option (UInt64 × UInt64)}
    (hperturb : e_perturb ≠ USEC_INFINITY → e_perturb < USEC_PER_MINUTE) (ha : a ≠ 0)
    (hab : a.toNat + 1 < b.toNat) (hb : USEC_PER_MINUTE ≤ b) (hwrap : b.toNat + 60000000 < size) :
    ∃ c, sleep_between wrapping a b e_perturb id = .ok c ∧ a ≤ c ∧
      Coarsest (initialize_perturb e_perturb id) a b c units := by
  have hle : a ≤ b := le_iff_toNat_le.mpr (by omega)
  have hnext : ¬ b ≤ a + 1 := by
    rw [le_iff_toNat_le, UInt64.toNat_add, UInt64.toNat_one, mod_eq_of_lt (by unfold size at hwrap; omega)]
    omega
  have hfinite : b ≠ USEC_INFINITY := by
    intro heq
    rw [heq] at hwrap
    exact absurd hwrap (by decide)
  have hus : ∀ u ∈ units, 0 < u.toNat ∧ u.toNat ≤ 60000000 ∧ u ≤ b := by
    intro u hu
    obtain ⟨hpos, hunit⟩ := units_spec u hu
    have hminute : u ≤ USEC_PER_MINUTE := le_iff_toNat_le.mpr hunit
    exact ⟨hpos, hunit, UInt64.le_trans hminute hb⟩
  rw [sleep_between_eq wrapping (initialize_perturb_lt id hperturb) hle hfinite, if_neg ha]
  change ∃ c, (if b ≤ a + 1 then _ else _) = _ ∧ _
  rw [if_neg hnext]
  exact first_aligned_coarsest hle hwrap units hus

theorem sleep_between_coarsest_day :
    ∃ c, sleep_between wrapping 86400000000 86460000001 7000000 none = .ok c ∧ 86400000000 ≤ c ∧
      Coarsest (initialize_perturb 7000000 none) 86400000000 86460000001 c units :=
  sleep_between_coarsest (by decide) (by decide) (by decide) (by decide) (by decide)

end run

end SdCompat.SleepBetween
