import SdCompat.SdEvent.EventSource

/-! # How many calls a rate limit lets through (ratelimit.c)

    `ratelimit_below` begins a window with a call, and lets `burst` calls
    through until the `interval` is over; the next call begins another window.
-/

namespace SdCompat.Event

/-- What the calls at these times return, beside their times. -/
def ratelimit_calls : RateLimit → List Nat → List (Nat × Bool)
  | _, [] => []
  | rl, ts :: times =>
    (ts, (ratelimit_below ts rl).1) :: ratelimit_calls (ratelimit_below ts rl).2 times

/-- How many of the calls between two times were let through. -/
def let_through (lo hi : Nat) (calls : List (Nat × Bool)) : Nat :=
  calls.countP fun c => lo ≤ c.1 ∧ c.1 ≤ hi ∧ c.2

/-- Times of the clock, one after the other, from the begin of the window on. -/
def Timely (rl : RateLimit) (times : List Nat) : Prop :=
  times.Pairwise (· ≤ ·) ∧ ∀ ts ∈ times, 0 < ts ∧ ts < USEC_INFINITY ∧ rl.begin ≤ ts

theorem let_through_cons (lo hi : Nat) (c : Nat × Bool) (calls : List (Nat × Bool)) :
    let_through lo hi (c :: calls) =
      let_through lo hi calls + if lo ≤ c.1 ∧ c.1 ≤ hi ∧ c.2 then 1 else 0 := by
  simp [let_through, List.countP_cons]

/-- What is returned keeps the time of its call. -/
theorem mem_of_ratelimit_calls {rl : RateLimit} {times : List Nat} {c : Nat × Bool}
    (hmem : c ∈ ratelimit_calls rl times) : c.1 ∈ times := by
  induction times generalizing rl with
  | nil => simp [ratelimit_calls] at hmem
  | cons t times ih =>
    rcases List.mem_cons.mp hmem with rfl | hmem
    · simp
    · exact .tail _ (ih hmem)

/-- A call begins a window, or it is in one: then the counter stands at its
    end, or counts the call. -/
theorem ratelimit_below_cases {rl : RateLimit} {ts : Nat} {times : List Nat}
    (hconf : ratelimit_configured rl = true) (ht : Timely rl (ts :: times)) :
    ∃ ok begin num, ratelimit_below ts rl = (ok, ⟨rl.interval, rl.burst, num, begin⟩) ∧
      Timely ⟨rl.interval, rl.burst, num, begin⟩ times ∧
      (ok = true ∧ begin = ts ∧ num = 1 ∧ (rl.begin = 0 ∨ rl.begin + rl.interval < ts) ∨
       begin = rl.begin ∧ rl.begin ≠ 0 ∧ ts ≤ rl.begin + rl.interval ∧
        (ok = false ∧ num = rl.num ∧ rl.num = 2 ^ 32 - 1 ∨
         ok = decide (num ≤ rl.burst) ∧ num = rl.num + 1)) := by
  obtain ⟨hs, hall⟩ := ht
  obtain ⟨-, hlt, hle⟩ := hall ts (by simp)
  rw [List.pairwise_cons] at hs
  have hrest : ∀ begin num, begin = rl.begin ∨ begin = ts →
      Timely ⟨rl.interval, rl.burst, num, begin⟩ times := by
    intro begin num hbegin
    refine ⟨hs.2, ?_⟩
    intro t hmem
    have hafter := hs.1 t hmem
    have hclock := hall t (by simp [hmem])
    rcases hbegin with rfl | rfl <;> simp <;> omega
  have hsub : usec_sub_unsigned ts rl.begin = ts - rl.begin := by
    unfold usec_sub_unsigned
    rw [if_neg (by omega), if_neg (by omega)]
  simp only [ratelimit_below, hconf, hsub, Bool.not_true, Bool.false_eq_true, if_false,
    Bool.or_eq_true, decide_eq_true_eq]
  split
  · exact ⟨true, ts, 1, rfl, hrest _ _ (.inr rfl), .inl ⟨rfl, rfl, rfl, by omega⟩⟩
  · split
    · next hmax => exact ⟨false, _, _, rfl, hrest _ _ (.inl rfl), .inr (by simp [hmax]; omega)⟩
    · exact ⟨_, _, _, rfl, hrest _ _ (.inl rfl), .inr (by simp; omega)⟩

section
variable (rl : RateLimit) (lo hi : Nat) {ts : Nat} {times : List Nat}
  (hconf : ratelimit_configured rl = true) (ht : Timely rl times)
include hconf ht

/-- In a window no more calls are let through than are left of the burst. -/
theorem let_through_window (hbegin : rl.begin ≠ 0) (hhi : hi ≤ rl.begin + rl.interval) :
    let_through lo hi (ratelimit_calls rl times) ≤ rl.burst - rl.num := by
  induction times generalizing rl with
  | nil => simp [ratelimit_calls, let_through]
  | cons t times ih =>
    obtain ⟨ok, begin, num, heq, ht', hcase⟩ := ratelimit_below_cases hconf ht
    rw [ratelimit_calls, let_through_cons, heq]
    rcases hcase with ⟨rfl, rfl, rfl, hend⟩ | ⟨rfl, -, -, hnum⟩
    · -- a new window, and the times of this one are over
      have hlate : let_through lo hi (ratelimit_calls ⟨rl.interval, rl.burst, 1, begin⟩ times) = 0 := by
        rw [let_through, List.countP_eq_zero]
        intro c hmem
        have hafter := (List.pairwise_cons.mp ht.1).1 _ (mem_of_ratelimit_calls hmem)
        simp
        omega
      rw [hlate, if_neg (by simp; omega)]
      exact Nat.zero_le _
    · have hrest := ih ⟨rl.interval, rl.burst, num, rl.begin⟩ hconf ht' hbegin hhi
      grind

/-- A span no longer than a window meets two of them at most: what is left of
    this one, unless it is over before the span, and another. -/
theorem let_through_span (hhi : hi ≤ lo + rl.interval) :
    let_through lo hi (ratelimit_calls rl times) ≤ rl.burst +
      if rl.begin ≠ 0 ∧ lo ≤ rl.begin + rl.interval then rl.burst - rl.num else rl.burst := by
  induction times generalizing rl with
  | nil => simp [ratelimit_calls, let_through]
  | cons t times ih =>
    obtain ⟨ok, begin, num, heq, ht', hcase⟩ := ratelimit_below_cases hconf ht
    have hrest := ih ⟨rl.interval, rl.burst, num, begin⟩ hconf ht' hhi
    have hwindow := let_through_window ⟨rl.interval, rl.burst, num, begin⟩ lo hi hconf ht'
    have hpos := (ht.2 t (by simp)).1
    have hburst : 0 < rl.burst := by simp_all [ratelimit_configured]
    rw [ratelimit_calls, let_through_cons, heq]
    grind

/-- A call is refused when the burst is used up: by the calls let through in
    the interval before it, and those the window had counted before the run. -/
theorem let_through_before (hburst : rl.burst < 2 ^ 32)
    (hmem : (ts, false) ∈ ratelimit_calls rl times) :
    rl.burst ≤ let_through (ts - rl.interval) ts (ratelimit_calls rl times) +
      if rl.begin ≠ 0 ∧ ts ≤ rl.begin + rl.interval then min rl.num rl.burst else 0 := by
  induction times generalizing rl with
  | nil => simp [ratelimit_calls] at hmem
  | cons t times ih =>
    obtain ⟨ok, begin, num, heq, ht', hcase⟩ := ratelimit_below_cases hconf ht
    have hrest := ih ⟨rl.interval, rl.burst, num, begin⟩ hconf ht' hburst
    have hafter : (ts, false) ∈ ratelimit_calls ⟨rl.interval, rl.burst, num, begin⟩ times → t ≤ ts :=
      fun hlater => (List.pairwise_cons.mp ht.1).1 ts (mem_of_ratelimit_calls hlater)
    have hpos := (ht.2 t (by simp)).2
    rw [ratelimit_calls, heq] at hmem ⊢
    rw [let_through_cons]
    rcases List.mem_cons.mp hmem with hhead | hmem <;> grind

end

/-- No interval sees more than two bursts, and no call is refused before the
    interval has seen one. -/
theorem ratelimit_bounds (rl : RateLimit) (times : List Nat)
    (hconf : ratelimit_configured rl = true) (hburst : rl.burst < 2 ^ 32)
    (hsorted : times.Pairwise (· ≤ ·)) (hclock : ∀ ts ∈ times, 0 < ts ∧ ts < USEC_INFINITY) :
    (∀ lo, let_through lo (lo + rl.interval) (ratelimit_calls (ratelimit_reset rl) times) ≤
      2 * rl.burst) ∧
    ∀ ts, (ts, false) ∈ ratelimit_calls (ratelimit_reset rl) times →
      rl.burst ≤
        let_through (ts - rl.interval) ts (ratelimit_calls (ratelimit_reset rl) times) := by
  have ht : Timely (ratelimit_reset rl) times :=
    ⟨hsorted, fun ts hmem => ⟨(hclock ts hmem).1, (hclock ts hmem).2, Nat.zero_le _⟩⟩
  constructor
  · intro lo
    have hspan := let_through_span (ratelimit_reset rl) lo _ hconf ht (Nat.le_refl (lo + rl.interval))
    simp [ratelimit_reset] at hspan ⊢
    omega
  · intro ts hmem
    simpa [ratelimit_reset] using let_through_before (ratelimit_reset rl) hconf ht hburst hmem

/-- The third call of a window is refused. -/
theorem ratelimit_bounds_met :
    2 ≤ let_through 1 11 (ratelimit_calls (ratelimit_reset ⟨10, 2, 0, 0⟩) [1, 11, 11]) :=
  (ratelimit_bounds ⟨10, 2, 0, 0⟩ [1, 11, 11] (by decide) (by decide) (by decide)
    (by decide)).2 11 (by decide)

end SdCompat.Event
