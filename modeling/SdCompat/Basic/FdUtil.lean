import Mathlib.Data.List.Sort
import SdCompat.Basic.Common

/-! # Closing and packing descriptors (fd-util.c)

    `close_all_fds` and `pack_fds`, over a table of the open descriptors.
-/

namespace SdCompat.Fds

open List Function Outcome

/-! ## Section 1: The table -/

/-- What a descriptor refers to, and its close-on-exec flag. -/
structure Entry (File : Type) where
  file : File
  cloexec : Bool
  deriving DecidableEq

/-- The descriptors that are open. -/
abbrev Table (File : Type) := Nat → Option (Entry File)

def INT_MAX : Nat := 2 ^ 31 - 1

def UINT_MAX : Nat := 2 ^ 32 - 1

section
variable {File : Type}

def close (t : Table File) (fd : Nat) : Table File := update t fd none

/-- `close_range`; a range that is empty or reversed is an error. -/
def close_range (first last : Int) (t : Table File) : Outcome (Table File) :=
  if last < first then .err .EINVAL
  else .ok fun fd => if first ≤ fd && (fd : Int) ≤ last then none else t fd

/-- The same, where the source has a condition before it. -/
def close_when (c : Prop) [Decidable c] (first last : Int) (t : Table File) :
    Outcome (Table File) :=
  if c then close_range first last t else .ok t

/-- `F_DUPFD` and `F_DUPFD_CLOEXEC`: the lowest free descriptor from `least`
    on, below the limit of the process. -/
def fcntl_dupfd (limit : Nat) (cloexec : Bool) (t : Table File) (fd least : Nat) :
    Option (Nat × Table File) := do
  let x ← t fd
  let n ← (range' least (limit - least)).find? fun n => (t n).isNone
  some (n, update t n (some { x with cloexec }))

theorem dupfd_ok {limit fd least n : Nat} {cloexec : Bool} {t t' : Table File}
    (h : fcntl_dupfd limit cloexec t fd least = some (n, t')) :
    ∃ x, t fd = some x ∧ least ≤ n ∧ t n = none ∧ (t least = none → n = least) ∧
      t' = update t n (some { x with cloexec }) := by
  obtain ⟨x, hx, h⟩ := Option.bind_eq_some_iff.mp h
  obtain ⟨m, hm, h⟩ := Option.bind_eq_some_iff.mp h
  obtain ⟨rfl, rfl⟩ := Prod.mk.inj (Option.some.inj h)
  have hmem := mem_range'_1.mp (mem_of_find?_eq_some hm)
  have hfree : (t m).isNone = true := by simpa using find?_some hm
  refine ⟨x, hx, hmem.1, Option.isNone_iff_eq_none.mp hfree, fun hleast => ?_, rfl⟩
  obtain ⟨k, hk⟩ := Nat.exists_eq_succ_of_ne_zero (n := limit - least) (by omega)
  rw [hk, range'_succ, find?_cons_of_pos (by rw [hleast]; rfl)] at hm
  exact (Option.some.inj hm).symm

/-! ## Section 2: close_all_fds -/

/-- `get_max_fd`, of the larger of the two limits. -/
def get_max_fd (getrlimit : Outcome Nat) : Outcome Nat := do
  let m ← getrlimit
  if m < 1024 then .ok 1023
  else if INT_MAX < m then .ok INT_MAX
  else .ok (m - 1)

def MAX_FD_LOOP_LIMIT : Nat := 1024 * 1024

def fd_in_set (fd : Nat) (fds : List Int) : Bool := fds.any fun i => 0 ≤ i && i == fd

/-- A round of the loop: the table, and the first error; `close_errno` is what
    `close` reports, which closes the descriptor nevertheless. -/
def frugal_round (close_errno : Nat → Option Errno) (except : List Int)
    (x : Table File × Option Errno) (fd : Nat) : Table File × Option Errno :=
  if fd_in_set fd except then x
  else if (x.1 fd).isNone then x
  else (close x.1 fd, x.2.or (close_errno fd))

/-- `close_all_fds_frugal`: it refuses, or the table and the error at the end. -/
def close_all_fds_frugal (getrlimit : Outcome Nat) (close_errno : Nat → Option Errno)
    (except : List Int) (t : Table File) : Outcome (Table File × Option Errno) := do
  let max_fd ← get_max_fd getrlimit
  if MAX_FD_LOOP_LIMIT < max_fd then .err .EPERM
  else .ok ((range' 3 (max_fd - 2)).foldl (frugal_round close_errno except) (t, none))

/-- `close_all_fds_special_case`, and whether it has worked. -/
def close_all_fds_special_case (except : List Int) (t : Table File) :
    Outcome (Bool × Table File) :=
  -- one that is invalid is none
  match if except.length = 1 && except.headD 0 < 0 then [] else except with
  | [] => do
    let t ← close_range 3 INT_MAX t
    .ok (true, t)
  | [e] => do
    let t ← close_when (3 < e) 3 (e - 1) t
    let t ← close_when (e < INT_MAX) (max 3 (e + 1)) UINT_MAX t
    .ok (true, t)
  | _ => .ok (false, t)

/-- The loop over the sorted array, and what is closed after it. -/
def close_between : List Int → Table File → Outcome (Table File)
  | [], t => .ok t
  | [last], t => close_when (last < INT_MAX) (last + 1) INT_MAX t
  | a :: b :: l, t =>
    let start := max a 2
    let stop := max b 2
    if stop < start then .abort
    else do
      let t ← close_when (1 < stop - start) (start + 1) (stop - 1) t
      close_between (b :: l) t

/-- `ALLOCA_MAX / sizeof(int)` -/
def ALLOCA_INTS : Nat := 1024 * 1024

/-- `close_all_fds`; `oom` tells that the heap is full. -/
def close_all_fds (getrlimit : Outcome Nat) (close_errno : Nat → Option Errno) (oom : Bool)
    (except : List Int) (t : Table File) : Outcome (Table File × Option Errno) := do
  let (done, t) ← close_all_fds_special_case except t
  if done then .ok (t, none)
  else if ALLOCA_INTS < except.length + 1 && oom then
    close_all_fds_frugal getrlimit close_errno except t
  else do
    let t ← close_between ((except ++ [2]).insertionSort (· ≤ ·)) t
    .ok (t, none)

/-- What is left open of the descriptors up to `top`. -/
def LeavesOpen (top : Nat) (except : List Int) (t t' : Table File) : Prop :=
  ∀ fd ≤ top, t' fd = if fd < 3 ∨ (fd : Int) ∈ except then t fd else none

variable {except : List Int} {t t' : Table File}

variable {close_errno : Nat → Option Errno}

theorem frugal_loop (n start : Nat) (x : Table File × Option Errno) (fd : Nat) :
    ((range' start n).foldl (frugal_round close_errno except) x).1 fd =
      if fd < start ∨ start + n ≤ fd ∨ (fd : Int) ∈ except then x.1 fd else none := by
  induction n generalizing start x with
  | zero => rw [range'_zero, foldl_nil, if_pos (by omega)]
  | succ n ih =>
    have hset : fd_in_set fd except = decide ((fd : Int) ∈ except) := by
      rw [Bool.eq_iff_iff]
      simp only [fd_in_set, any_eq_true, Bool.and_eq_true, decide_eq_true_eq, beq_iff_eq]
      constructor
      · rintro ⟨i, hi, -, rfl⟩
        exact hi
      · intro h
        exact ⟨_, h, Int.natCast_nonneg _, rfl⟩
    have hround : (frugal_round close_errno except x start).1 fd =
        if fd = start ∧ (fd : Int) ∉ except then none else x.1 fd := by
      unfold frugal_round
      by_cases hfd : fd = start
      · subst hfd
        rw [hset]
        by_cases hin : (fd : Int) ∈ except
        · simp [hin]
        · simp only [hin, decide_false, Bool.false_eq_true, if_false, true_and, not_false_eq_true,
            if_true]
          split
          · next hnone => exact Option.isNone_iff_eq_none.mp hnone
          · exact update_self ..
      · rw [if_neg (c := fd = start ∧ (fd : Int) ∉ except) (fun h => hfd h.1)]
        split
        · rfl
        split
        · rfl
        · exact update_of_ne hfd ..
    rw [range'_succ, foldl_cons, ih, hround]
    by_cases hmem : (fd : Int) ∈ except
    · simp [hmem]
    · simp only [hmem, or_false, not_false_eq_true, and_true]
      split_ifs <;> first | rfl | omega

theorem frugal_ok {getrlimit : Outcome Nat} {e : Option Errno}
    (h : close_all_fds_frugal getrlimit close_errno except t = .ok (t', e)) :
    ∃ top, get_max_fd getrlimit = .ok top ∧ LeavesOpen top except t t' ∧
      ∀ fd, top < fd → t' fd = t fd := by
  unfold close_all_fds_frugal at h
  cases htop : get_max_fd getrlimit with
  | err e => rw [htop] at h; cases h
  | abort => rw [htop] at h; cases h
  | ok top =>
    rw [htop] at h
    change (if MAX_FD_LOOP_LIMIT < top then _ else _) = _ at h
    split at h
    · cases h
    · have hloop : ∀ fd, t' fd = if fd < 3 ∨ 3 + (top - 2) ≤ fd ∨ (fd : Int) ∈ except then t fd
          else none := by
        intro fd
        obtain ⟨rfl, -⟩ := Prod.mk.inj (ok.inj h)
        rw [frugal_loop]
      refine ⟨top, rfl, fun fd hfd => ?_, fun fd hfd => ?_⟩
      · rw [hloop]
        grind
      · rw [hloop, if_pos (by omega)]

theorem close_when_ok (c : Prop) [Decidable c] {first last : Int} (h : c → first ≤ last)
    (t : Table File) : ∃ t', close_when c first last t = .ok t' ∧
      ∀ fd : Nat, t' fd = if c ∧ first ≤ fd ∧ fd ≤ last then none else t fd := by
  unfold close_when
  split
  · next hc =>
    rw [close_range, if_neg (Int.not_lt.mpr (h hc))]
    exact ⟨_, rfl, fun fd => by simp [hc]⟩
  · next hc => exact ⟨t, rfl, fun fd => by simp [hc]⟩

/-- All between the elements and beyond the last one is closed. -/
theorem close_between_ok {a : Int} {l : List Int} (hsort : (a :: l).Pairwise (· ≤ ·))
    (hlast : ∃ e ∈ a :: l, 2 ≤ e) (t : Table File) :
    ∃ t', close_between (a :: l) t = .ok t' ∧ ∀ fd ≤ INT_MAX,
      t' fd = if (fd : Int) ≤ max a 2 ∨ (fd : Int) ∈ a :: l then t fd else none := by
  induction l generalizing a t with
  | nil =>
    obtain ⟨e, he, h2⟩ := hlast
    obtain rfl := mem_singleton.mp he
    obtain ⟨t', ht, hfd⟩ :=
      close_when_ok (e < INT_MAX) (show _ → e + 1 ≤ (INT_MAX : Int) by omega) t
    refine ⟨t', ht, fun fd hle => ?_⟩
    grind
  | cons b l ih =>
    obtain ⟨hab, hsort'⟩ := pairwise_cons.mp hsort
    have hb := hab b (.head _)
    have hbl := (pairwise_cons.mp hsort').1
    have hlast' : ∃ e ∈ b :: l, 2 ≤ e := by
      obtain ⟨e, he, h2⟩ := hlast
      rcases mem_cons.mp he with rfl | he
      · exact ⟨b, .head _, by omega⟩
      · exact ⟨e, he, h2⟩
    obtain ⟨t1, h1, hfd1⟩ := close_when_ok (1 < max b 2 - max a 2)
      (show _ → max a 2 + 1 ≤ max b 2 - 1 by omega) t
    obtain ⟨t', ht, hfd⟩ := ih hsort' hlast' t1
    refine ⟨t', ?_, fun fd hle => ?_⟩
    · unfold close_between
      rw [if_neg (by omega), h1]
      exact ht
    · -- nothing of the array is between the two
      have hbetween : ∀ fd : Int, fd ∈ b :: l → b ≤ fd := by
        intro fd hfd
        rcases mem_cons.mp hfd with rfl | hfd
        · exact Int.le_refl _
        · exact hbl fd hfd
      grind

theorem special_case_ok (except : List Int) (t : Table File) : ∃ done t', close_all_fds_special_case except t = .ok (done, t') ∧
    (done = true → LeavesOpen INT_MAX except t t') ∧ (done = false → t' = t) := by
  have hall : ∀ l : List Int, (∀ e ∈ l, e < 0) → ∃ t', close_range 3 INT_MAX t = .ok t' ∧
      LeavesOpen INT_MAX l t t' := by
    intro l hl
    refine ⟨_, if_neg (by decide), fun fd hfd => ?_⟩
    grind
  unfold close_all_fds_special_case
  rcases except with _ | ⟨e, _ | ⟨e', l⟩⟩
  · obtain ⟨t', ht, hopen⟩ := hall [] (fun _ h => (by cases h))
    refine ⟨true, t', ?_, fun _ => hopen, fun h => (by cases h)⟩
    rw [if_neg (by simp), ht, ok_bind]
  · by_cases he : e < 0
    · obtain ⟨t', ht, hopen⟩ := hall [e] (fun _ h => mem_singleton.mp h ▸ he)
      refine ⟨true, t', ?_, fun _ => hopen, fun h => (by cases h)⟩
      rw [if_pos (by simp [he])]
      rw [ht, ok_bind]
    · obtain ⟨t1, h1, hfd1⟩ := close_when_ok (3 < e) (show _ → 3 ≤ e - 1 by omega) t
      have hint : (INT_MAX : Int) < UINT_MAX ∧ (3 : Int) < INT_MAX := by decide
      obtain ⟨t2, h2, hfd2⟩ := close_when_ok (e < INT_MAX)
        (show _ → max 3 (e + 1) ≤ (UINT_MAX : Int) by omega) t1
      refine ⟨true, t2, ?_, fun _ fd hfd => ?_, fun h => (by cases h)⟩
      · rw [if_neg (by simp [he])]
        dsimp only
        rw [h1, ok_bind, h2, ok_bind]
      · rw [hfd2]
        grind
  · exact ⟨false, t, rfl, fun h => (by cases h), fun _ => rfl⟩

variable (getrlimit : Outcome Nat) (close_errno : Nat → Option Errno) (oom : Bool)
  (except : List Int) (t : Table File)

/-- Either the array is sorted, or the frugal loop takes over; that one leaves
    alone what is beyond the limit. -/
theorem all_fds_closed :
    ((∃ t', close_all_fds getrlimit close_errno oom except t = .ok (t', none) ∧
        LeavesOpen INT_MAX except t t') ∨
      (oom = true ∧ ALLOCA_INTS < except.length + 1) ∧
        close_all_fds getrlimit close_errno oom except t =
          close_all_fds_frugal getrlimit close_errno except t) ∧
      ∀ t' e, close_all_fds_frugal getrlimit close_errno except t = .ok (t', e) →
        ∃ top, get_max_fd getrlimit = .ok top ∧ LeavesOpen top except t t' ∧
          ∀ fd, top < fd → t' fd = t fd := by
  refine ⟨?_, fun _ _ => frugal_ok⟩
  obtain ⟨done, t1, hspecial, hdone, hsame⟩ := special_case_ok except t
  unfold close_all_fds
  rw [hspecial, ok_bind]
  cases done with
  | true => exact .inl ⟨t1, rfl, hdone rfl⟩
  | false =>
    obtain rfl := hsame rfl
    dsimp only
    rw [if_neg Bool.false_ne_true]
    split
    · next hoom =>
      rw [Bool.and_eq_true, decide_eq_true_eq] at hoom
      exact .inr ⟨hoom.symm, rfl⟩
    · refine .inl ?_
      have hsort := pairwise_insertionSort (· ≤ ·) (except ++ [2])
      have hmem : ∀ e, e ∈ (except ++ [2]).insertionSort (· ≤ ·) ↔ e ∈ except ∨ e = 2 := by
        intro e
        rw [mem_insertionSort, mem_append, mem_singleton]
      have htwo := (hmem 2).mpr (.inr rfl)
      cases hl : (except ++ [2]).insertionSort (· ≤ ·) with
      | nil =>
        rw [hl] at htwo
        cases htwo
      | cons a l =>
        rw [hl] at hsort hmem htwo
        have ha : a ≤ 2 := by
          rcases mem_cons.mp htwo with h | h
          · omega
          · exact (pairwise_cons.mp hsort).1 2 h
        obtain ⟨t', ht, hfd⟩ := close_between_ok hsort ⟨2, htwo, Int.le_refl 2⟩ t1
        refine ⟨t', by rw [ht, ok_bind], fun fd hle => ?_⟩
        have hin := hmem fd
        rw [hfd fd hle]
        grind

/-- The limit was lowered when descriptor 5000 was open. -/
theorem frugal_leaves_open : ∃ t' r,
    close_all_fds (.ok 1024) (fun _ => none) false []
      (fun fd => if fd = 5000 then some ⟨(), false⟩ else none) = .ok (t', none) ∧
    close_all_fds_frugal (.ok 1024) (fun _ => none) []
      (fun fd => if fd = 5000 then some ⟨(), false⟩ else none) = .ok r ∧ t' 5000 ≠ r.1 5000 := by
  generalize ht : (fun fd => if fd = 5000 then some (Entry.mk () false) else none) = t
  have hfile : t 5000 = some (Entry.mk () false) := by
    rw [← ht]
    rfl
  obtain ⟨r, hr⟩ : ∃ r, close_all_fds_frugal (.ok 1024) (fun _ => none) [] t = .ok r := ⟨_, rfl⟩
  obtain ⟨top, htop, -, habove⟩ := frugal_ok (hr.trans (congrArg ok (Prod.mk.eta (p := r)).symm))
  obtain rfl : 1023 = top := ok.inj htop
  refine ⟨_, r, rfl, hr, ?_⟩
  rw [habove 5000 (by decide), hfile]
  exact fun h => (by cases h)

end

end SdCompat.Fds
