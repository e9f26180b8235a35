import Mathlib.Data.List.Nodup
import SdCompat.Lib.Transition
import SdCompat.SdFuture.Fiber

/-! # Fibers and their event loops (fiber.c)

    Fibers are entered and resumed by the event loop, through a deferred and an
    exit source, and give up control by suspending or returning. Anything that
    runs, a fiber, a callback or the program, may start, resume, cancel and
    release fibers, and may run another event loop, which runs fibers on top
    of the one that is running.

    What an event loop is at is left open, except that it does not run two of
    its fibers within one another, dispatches exit sources once it has been
    told to exit and the others before, and nothing once it is finished.
-/

open Transition

namespace SdCompat.Fibers

open List Function Bool Fiber

/-! ## Section 1: Data -/

/-- How far the function of a fiber has got: it has not been called, it has
    been called, or the fiber is through with it. -/
inductive Progress where
  | fresh | inside | returned
  deriving DecidableEq, Repr

/-- Why the process has come to its end: an assertion of `fiber_run`, of
    `fiber_cancel` or of `fiber_free`, a jump to a context that is not there,
    or the use of a fiber that has been freed. -/
inductive Crash where
  | run | cancel | free | jump | freed
  deriving DecidableEq, Repr

structure EventLoop where
  exit_requested : Bool
  finished : Bool
  deriving DecidableEq, Repr

/-- The fibers below `next` have been made. The last fields are a record: how
    often the function has been called, how many cancellations have been
    accepted from the time it has, and how many of them `fiber_swap` has
    returned. -/
structure Sched where
  fibers : Nat → Fiber
  next : Nat
  freed : Nat → Bool
  progress : Nat → Progress
  loops : Nat → EventLoop
  /-- The fibers that run, the innermost one first. -/
  stack : List Nat
  crashed : Option Crash
  entered : Nat → Nat
  requests : Nat → Nat
  delivered : Nat → Nat

/-! ## Section 2: Functions -/

namespace Sched

def crash (s : Sched) (c : Crash) : Sched := { s with crashed := some c }

def set (s : Sched) (φ : Nat) (fiber : Fiber) : Sched :=
  { s with fibers := update s.fibers φ fiber }

/-- What `sd_event_get_state` may return: `SD_EVENT_EXITING` is for the time an
    exit source is dispatched. -/
def may_see (s : Sched) (event : Nat) : EventState → Bool
  | .FINISHED => (s.loops event).finished
  | .EXITING => !(s.loops event).finished && (s.loops event).exit_requested
  | .INITIAL | .RUNNING => !(s.loops event).finished

/-- `fiber_entry_point`, when it is entered for real, or what is behind the jump
    in `fiber_swap`. -/
def fiber_enter (s : Sched) (φ : Nat) (fiber : Fiber) : Sched :=
  match s.progress φ with
  | .fresh =>
    if fiber.state = .CANCELLED then
      { s.set φ (fiber_complete (-ECANCELED) fiber) with
        progress := update s.progress φ .returned }
    else
      { s.set φ fiber with
        progress := update s.progress φ .inside
        entered := update s.entered φ (s.entered φ + 1)
        stack := φ :: s.stack }
  | .inside =>
    if φ ∈ s.stack then s.crash .jump
    else
      { s.set φ (fiber_swap_resumed fiber).2 with
        delivered := update s.delivered φ
          (s.delivered φ + if fiber.state = .CANCELLED then 1 else 0)
        stack := φ :: s.stack }
  | .returned => s.crash .jump

/-- `fiber_run`, up to the jump and on behind it. -/
def fiber_run (s : Sched) (φ : Nat) (fiber : Fiber) : Sched :=
  match fiber.state with
  | .COMPLETED => s.set φ fiber
  | .SUSPENDED => s.crash .run
  | .INITIAL | .READY | .CANCELLED => s.fiber_enter φ fiber

/-- A cancellation that was accepted, of a fiber whose function has been
    called. -/
def counts (s : Sched) (φ : Nat) : Except Errno Bool → Nat
  | .ok true => if s.progress φ = .inside then 1 else 0
  | _ => 0

/-- `fiber_cancel`, with the record of it. -/
def cancelled (s : Sched) (φ : Nat) (e : EventState) (fiber : Fiber) : Sched :=
  { s.set φ (fiber_cancel e fiber).2 with
    requests := update s.requests φ
      (s.requests φ + s.counts φ (fiber_cancel e fiber).1) }

/-- `fiber_on_exit` -/
def fiber_on_exit (s : Sched) (φ : Nat) (fiber : Fiber) : Sched :=
  if fiber.state = .COMPLETED then s.set φ fiber
  else if s.stack.head? = some φ then s.crash .cancel
  else
    match (fiber_cancel .EXITING fiber).1 with
    | .ok false => s.fiber_run φ (fiber_cancel .EXITING fiber).2
    | _ => s.cancelled φ .EXITING fiber

end Sched

/-! ## Section 3: The system -/

inductive SchedLabel where
  | new (event : Nat) (seen : EventState)
  | dispatch (fiber : Nat)
  | suspend
  | finish (result : Int)
  | resume (fiber : Nat) (result : Int) (seen : EventState)
  | cancel (fiber : Nat) (seen : EventState)
  | release (fiber : Nat)
  | exit (event : Nat)
  | finished (event : Nat)
  deriving DecidableEq, Repr

namespace Sched

/-- A fiber there are references to. -/
def alive (s : Sched) (φ : Nat) : Bool := φ < s.next && !s.freed φ

/-- The event loop dispatches a source of a fiber. -/
def dispatch (s : Sched) (φ : Nat) : Option Sched :=
  let fiber := s.fibers φ
  let exit := (s.loops fiber.event).exit_requested
  if s.alive φ && fiber.enabled exit && !(s.loops fiber.event).finished &&
      s.stack.all (fun ψ => (s.fibers ψ).event ≠ fiber.event) then
    if exit then some (s.fiber_on_exit φ (fiber.dispatched true))
    else some (s.fiber_run φ (fiber.dispatched false))
  else none

def step (s : Sched) (label : SchedLabel) : Option Sched :=
  if s.crashed.isSome then none
  else
    match label with
    | .new event seen =>
      if s.may_see event seen && (seen = .INITIAL || seen = .RUNNING) then
        some { s.set s.next (sd_fiber_new event (s.stack ≠ [])) with next := s.next + 1 }
      else none
    | .dispatch φ => s.dispatch φ
    | .suspend =>
      match s.stack with
      | [] => none
      | φ :: stack =>
        if s.freed φ then some (s.crash .freed)
        else some { s.set φ (fiber_swap (s.fibers φ)) with stack := stack }
    | .finish result =>
      match s.stack with
      | [] => none
      | φ :: stack =>
        if s.freed φ then some (s.crash .freed)
        else
          some { s.set φ (fiber_complete result (s.fibers φ)) with
            stack := stack
            progress := update s.progress φ .returned }
    | .resume φ result seen =>
      if s.alive φ && s.may_see (s.fibers φ).event seen then
        some (s.set φ (sd_fiber_resume seen result (s.fibers φ)))
      else none
    | .cancel φ seen =>
      if s.alive φ && s.may_see (s.fibers φ).event seen then
        -- `assert (fiber != fiber_get_current ())`
        if s.stack.head? = some φ then some (s.crash .cancel)
        else some (s.cancelled φ seen (s.fibers φ))
      else none
    | .release φ =>
      if s.alive φ then
        if (s.fibers φ).state = .INITIAL ∨ (s.fibers φ).state = .COMPLETED then
          some { s.set φ (s.fibers φ).disable with freed := update s.freed φ true }
        else some (s.crash .free)
      else none
    | .exit event =>
      some { s with
        loops := update s.loops event ⟨true, (s.loops event).finished⟩ }
    | .finished event =>
      if (s.loops event).exit_requested then
        some { s with loops := update s.loops event ⟨true, true⟩ }
      else none

def initial (s : Sched) : Prop :=
  s.next = 0 ∧ (∀ φ, s.freed φ = false) ∧ (∀ φ, s.progress φ = .fresh) ∧ s.stack = [] ∧
    s.crashed = none ∧ (∀ φ, s.entered φ = 0) ∧ (∀ φ, s.requests φ = 0) ∧
    (∀ φ, s.delivered φ = 0) ∧ ∀ e, s.loops e = ⟨false, false⟩

def scheduling : System Sched SchedLabel := System.of_step initial step

/-- The condition: what is done to a fiber from outside is not done to one that
    runs, which no state of a fiber tells from one that does not. -/
def NotRunning (s : Sched) : SchedLabel → Prop
  | .resume φ _ _ | .cancel φ _ | .release φ => φ ∉ s.stack
  | _ => True

/-- A fiber that waits for its turn has a source enabled that the event loop
    is going to dispatch. -/
def Queued (loop : EventLoop) (fiber : Fiber) : Prop :=
  (loop.exit_requested = false → fiber.defer_enabled = true) ∧
    (loop.finished = false → fiber.defer_enabled = true ∨ fiber.exit_enabled = true)

/-- A cancellation that has been accepted and not been returned yet. -/
def due (s : Sched) (φ : Nat) : Nat :=
  if s.progress φ = .inside ∧ (s.fibers φ).state = .CANCELLED ∧ φ ∉ s.stack then 1 else 0

/-- What the states of the fibers are good for. -/
structure Sound (s : Sched) : Prop where
  /-- The function of a fiber is called once at most. -/
  entered : ∀ φ, s.entered φ ≤ 1
  /-- The stack of a fiber is released only when its function has not been
      called or has returned, and then the fiber does not run. -/
  released : ∀ φ, s.freed φ = true →
    (s.entered φ = 0 ∨ s.progress φ = .returned) ∧ φ ∉ s.stack
  /-- No fiber runs twice, none is run that is suspended, and the only assertion
      that can fail is that of `fiber_free`. -/
  once : s.stack.Nodup
  running : ∀ φ ∈ s.stack, (s.fibers φ).state ≠ .SUSPENDED ∧ (s.fibers φ).state ≠ .COMPLETED
  crashed : s.crashed = none ∨ s.crashed = some .free
  /-- Each cancellation of a fiber that has been entered is returned by
      `fiber_swap` once. -/
  delivered : ∀ φ, s.requests φ = s.delivered φ + s.due φ
  /-- A fiber that is neither suspended nor through gets its turn. -/
  queued : ∀ φ < s.next, s.freed φ = false → φ ∉ s.stack →
    (s.fibers φ).state ≠ .SUSPENDED → (s.fibers φ).state ≠ .COMPLETED →
      Queued (s.loops (s.fibers φ).event) (s.fibers φ)

end Sched

/-! ## Section 4: One fiber -/

/-- All there is to know of one fiber. -/
@[ext] structure View where
  loop : EventLoop
  fiber : Fiber
  progress : Progress
  freed : Bool
  runs : Bool
  entered : Nat
  requests : Nat
  delivered : Nat

namespace View

def due (v : View) : Nat :=
  if v.progress = .inside ∧ v.fiber.state = .CANCELLED ∧ v.runs = false then 1 else 0

/-- The state says where the fiber is, unless it runs: one that runs has been
    entered, and its deferred source has been dispatched. -/
structure Known (v : View) : Prop where
  running : v.runs = true → v.progress = .inside ∧ v.freed = false ∧
    v.fiber.state ≠ .SUSPENDED ∧ v.fiber.state ≠ .COMPLETED ∧
    (v.loop.exit_requested = false → v.fiber.defer_enabled = false)
  fresh : v.progress = .fresh → v.entered = 0 ∧
    (v.fiber.state = .INITIAL ∨ v.fiber.state = .COMPLETED)
  inside : v.progress = .inside → v.runs = false →
    v.fiber.state = .SUSPENDED ∨ v.fiber.state = .READY ∨ v.fiber.state = .CANCELLED
  returned : v.progress = .returned → v.fiber.state = .COMPLETED
  suspended : v.fiber.state = .SUSPENDED → v.loop.exit_requested = false →
    v.fiber.defer_enabled = false
  queued : v.freed = false → v.runs = false → v.fiber.state ≠ .SUSPENDED →
    v.fiber.state ≠ .COMPLETED → Sched.Queued v.loop v.fiber
  freed : v.freed = true → v.progress ≠ .inside
  entered : v.entered ≤ 1
  delivered : v.requests = v.delivered + v.due

variable {v : View}

section
variable (h : v.Known)
include h

/-- A fiber that is idle and not through with its function has not been called
    or is inside of it, as its state says. -/
theorem Known.progress_initial (hr : v.runs = false) (hs : v.fiber.state = .INITIAL) :
    v.progress = .fresh := by
  cases hp : v.progress with
  | fresh => rfl
  | inside =>
    rcases h.inside hp hr with h' | h' | h'
    · rw [hs] at h'
      cases h'
    · rw [hs] at h'
      cases h'
    · rw [hs] at h'
      cases h'
  | returned =>
    have h' := h.returned hp
    rw [hs] at h'
    cases h'

theorem Known.progress_inside
    (hs : v.fiber.state = .SUSPENDED ∨ v.fiber.state = .READY ∨ v.fiber.state = .CANCELLED) :
    v.progress = .inside := by
  cases hp : v.progress with
  | fresh =>
    rcases (h.fresh hp).2 with h' | h'
    · rw [h'] at hs
      simp at hs
    · rw [h'] at hs
      simp at hs
  | inside => rfl
  | returned =>
    rw [h.returned hp] at hs
    simp at hs

/-- The function is called. -/
theorem Known.enter (hr : v.runs = false) (hf : v.freed = false) (hs : v.fiber.state = .INITIAL) :
    View.Known { v with
      fiber := v.fiber.dispatched false, progress := .inside, entered := v.entered + 1,
      runs := true } := by
  have hfresh := h.fresh (h.progress_initial hr hs)
  have hdel := h.delivered
  have hdue : v.due = 0 := by simp [due, hs]
  refine ⟨fun _ => ⟨rfl, hf, ?_, ?_, fun _ => rfl⟩, fun hp => (by cases hp), fun _ hr => (by cases hr),
    fun hp => (by cases hp), fun hs' => ?_, fun _ hr => (by cases hr),
    fun hf' => absurd (hf.symm.trans hf') (by simp), ?_, ?_⟩
  · simp [hs]
  · simp [hs]
  · rw [dispatched_state, hs] at hs'
    cases hs'
  · show v.entered + 1 ≤ 1
    omega
  · show v.requests = v.delivered + _
    rw [hdel, hdue]
    simp [due]

/-- The fiber goes on where it was suspended: what has been cancelled is
    returned now. -/
theorem Known.resume (hf : v.freed = false)
    (hs : v.fiber.state = .READY ∨ v.fiber.state = .CANCELLED) (hr : v.runs = false) {exit : Bool}
    (hexit : exit = v.loop.exit_requested) :
    View.Known { v with
      fiber := (fiber_swap_resumed (v.fiber.dispatched exit)).2
      delivered := v.delivered + if v.fiber.state = .CANCELLED then 1 else 0
      runs := true } := by
  have hinside : v.progress = .inside := h.progress_inside (.inr hs)
  have hstate : (fiber_swap_resumed (v.fiber.dispatched exit)).2.state = v.fiber.state := by
    unfold fiber_swap_resumed
    split
    · simp
    · simp
  have hdefer : (fiber_swap_resumed (v.fiber.dispatched exit)).2.defer_enabled =
      (v.fiber.dispatched exit).defer_enabled := by
    unfold fiber_swap_resumed
    split
    · rfl
    · rfl
  have hoff : v.loop.exit_requested = false → (v.fiber.dispatched exit).defer_enabled = false := by
    intro he
    rw [he] at hexit
    subst hexit
    rfl
  have hne : v.fiber.state ≠ .SUSPENDED ∧ v.fiber.state ≠ .COMPLETED := by
    rcases hs with hs | hs
    · rw [hs]
      exact ⟨by decide, by decide⟩
    · rw [hs]
      exact ⟨by decide, by decide⟩
  refine ⟨fun _ => ⟨hinside, hf, hstate ▸ hne.1, hstate ▸ hne.2, fun he => hdefer.trans (hoff he)⟩,
    fun hp => ?_, fun _ hr => (by cases hr), fun hp => ?_,
    fun hs' => absurd (hstate.symm.trans hs') hne.1, fun _ hr => (by cases hr),
    fun hf' => absurd (hf.symm.trans hf') (by simp), h.entered, ?_⟩
  · rw [hinside] at hp
    cases hp
  · rw [hinside] at hp
    cases hp
  · have hdel := h.delivered
    rw [hdel]
    simp [due, hinside, hr]

variable {e : EventState}

/-- **A cancellation that is accepted**, of a fiber that does not run; if the
    fiber was dispatched for it, the source is enabled again. -/
theorem Known.cancel (hr : v.runs = false) (hf : v.freed = false) {fiber : Fiber}
    (hstate : fiber.state = v.fiber.state) (he : e = .EXITING → v.loop.exit_requested = true)
    (hok : (fiber_cancel e fiber).1 = .ok true) :
    View.Known { v with
      fiber := (fiber_cancel e fiber).2
      requests := v.requests + if v.progress = .inside then 1 else 0 } := by
  have hdel := h.delivered
  rcases fiber_cancel_cases e fiber with ⟨-, hc⟩ | ⟨hs, hc⟩ | ⟨hs, ⟨-, hc⟩ | ⟨armed, ha, hc⟩⟩
  · rw [hc] at hok
    cases hok
  · -- it has not been entered: it never will be
    rw [hstate] at hs
    have hfresh := h.progress_initial hr hs
    rw [hc]
    have hdue : v.due = 0 := by simp [due, hs]
    refine ⟨fun hr' => absurd (hr.symm.trans hr') (by simp), fun _ => ⟨(h.fresh hfresh).1, .inr rfl⟩,
      fun hp => ?_, fun _ => rfl, fun hs' => (by cases hs'), fun _ _ _ hne => absurd rfl hne,
      h.freed, h.entered, ?_⟩
    · rw [hfresh] at hp
      cases hp
    · show v.requests + _ = v.delivered + _
      rw [hdel, hfresh]
      simp [due, hfresh]
  · rw [hc] at hok
    cases hok
  · -- it is inside of its function, and is going to get the error
    rw [hstate] at hs
    have hinside : v.progress = .inside := h.progress_inside (by
      rcases hs with hs | hs
      · exact .inr (.inl hs)
      · exact .inl hs)
    have hdue : v.due = 0 := by
      rcases hs with hs | hs
      · simp [due, hs]
      · simp [due, hs]
    rw [hc]
    refine ⟨fun hr' => absurd (hr.symm.trans hr') (by simp), fun hp => ?_, fun _ _ => .inr (.inr rfl),
      fun hp => ?_, fun hs' => (by cases hs'), fun _ _ _ _ => ?_,
      fun hf' => absurd (hf.symm.trans hf') (by simp), h.entered, ?_⟩
    · rw [hinside] at hp
      cases hp
    · rw [hinside] at hp
      cases hp
    · cases e with
      | FINISHED => cases ha
      | EXITING =>
        cases ha
        exact ⟨fun hno => absurd ((he rfl).symm.trans hno) (by simp), fun _ => .inr rfl⟩
      | INITIAL =>
        cases ha
        exact ⟨fun _ => rfl, fun _ => .inl rfl⟩
      | RUNNING =>
        cases ha
        exact ⟨fun _ => rfl, fun _ => .inl rfl⟩
    · show v.requests + _ = v.delivered + _
      rw [hdel, hdue]
      simp [due, hinside, hr]

/-- **A wake-up**: a fiber that was suspended is queued with the result. -/
theorem Known.wake (hr : v.runs = false) (result : Int)
    (hseen : e = .FINISHED → v.loop.finished = true ∧ v.loop.exit_requested = true)
    (he : e = .EXITING → v.loop.exit_requested = true) :
    View.Known { v with fiber := sd_fiber_resume e result v.fiber } := by
  by_cases hs : v.fiber.state = .SUSPENDED
  · have hinside : v.progress = .inside := h.progress_inside (.inl hs)
    have hready := (sd_fiber_resume_of_suspended hs e result).1
    have hdel := h.delivered
    have hdue : v.due = 0 := by simp [due, hs]
    refine ⟨fun hr' => absurd (hr.symm.trans hr') (by simp), fun hp => ?_,
      fun _ _ => .inr (.inl hready), fun hp => ?_, fun hs' => ?_, fun _ _ _ _ => ?_, h.freed,
      h.entered, ?_⟩
    · rw [hinside] at hp
      cases hp
    · rw [hinside] at hp
      cases hp
    · rw [hready] at hs'
      cases hs'
    · cases e with
      | FINISHED =>
        obtain ⟨hfin, hex⟩ := hseen rfl
        exact ⟨fun hno => absurd (hex.symm.trans hno) (by simp),
          fun hno => absurd (hfin.symm.trans hno) (by simp)⟩
      | EXITING =>
        refine ⟨fun hno => absurd ((he rfl).symm.trans hno) (by simp), fun _ => .inr ?_⟩
        simp [sd_fiber_resume, hs, enable_current]
      | INITIAL => exact ⟨fun _ => by simp [sd_fiber_resume, hs, enable_current],
          fun _ => .inl (by simp [sd_fiber_resume, hs, enable_current])⟩
      | RUNNING => exact ⟨fun _ => by simp [sd_fiber_resume, hs, enable_current],
          fun _ => .inl (by simp [sd_fiber_resume, hs, enable_current])⟩
    · show v.requests = v.delivered + _
      rw [hdel, hdue]
      simp [due, hready]
  · rw [sd_fiber_resume_of_ne hs]
    exact h

/-- The fiber gives up control, suspended or through with its function. -/
theorem Known.suspend (hr : v.runs = true) :
    View.Known { v with fiber := fiber_swap v.fiber, runs := false } := by
  obtain ⟨hinside, hf, -, -, hdefer⟩ := h.running hr
  have hdel := h.delivered
  have hdue : v.due = 0 := by simp [due, hr]
  refine ⟨fun hr' => (by cases hr'), fun hp => ?_, fun _ _ => .inl rfl, fun hp => ?_, fun _ => hdefer,
    fun _ _ hne => absurd rfl hne, h.freed, h.entered, ?_⟩
  · rw [hinside] at hp
    cases hp
  · rw [hinside] at hp
    cases hp
  · show v.requests = v.delivered + _
    rw [hdel, hdue]
    simp [due, fiber_swap]

theorem Known.finish (hr : v.runs = true) (result : Int) :
    View.Known { v with
      fiber := fiber_complete result v.fiber, runs := false, progress := .returned } := by
  have hdel := h.delivered
  have hdue : v.due = 0 := by simp [due, hr]
  refine ⟨fun hr' => (by cases hr'), fun hp => (by cases hp), fun hp => (by cases hp), fun _ => rfl,
    fun hs => (by cases hs), fun _ _ _ hne => absurd rfl hne, fun _ => by simp, h.entered, ?_⟩
  rw [hdel, hdue]
  simp [due]

theorem Known.release (hr : v.runs = false)
    (hs : v.fiber.state = .INITIAL ∨ v.fiber.state = .COMPLETED) :
    View.Known { v with fiber := v.fiber.disable, freed := true } := by
  refine ⟨fun hr' => absurd (hr.symm.trans hr') (by simp), h.fresh, h.inside, h.returned,
    fun _ _ => rfl, fun hf => (by cases hf), fun _ hp => ?_, h.entered, h.delivered⟩
  rcases h.inside hp hr with h' | h' | h'
  · rw [h'] at hs
    simp at hs
  · rw [h'] at hs
    simp at hs
  · rw [h'] at hs
    simp at hs

/-- A fiber that is through may still be dispatched, which does nothing. -/
theorem Known.completed (hs : v.fiber.state = .COMPLETED) (exit : Bool) :
    View.Known { v with fiber := v.fiber.dispatched exit } := by
  have hstate : (v.fiber.dispatched exit).state = .COMPLETED := by simp [hs]
  have hdel := h.delivered
  refine ⟨fun hr => absurd hs (h.running hr).2.2.2.1, fun hp => ⟨(h.fresh hp).1, .inr hstate⟩,
    fun hp hr => ?_, fun _ => hstate, fun hs' => ?_, fun _ _ _ hne => absurd hstate hne, h.freed,
    h.entered, ?_⟩
  · rcases h.inside hp hr with h' | h' | h'
    · rw [hs] at h'
      cases h'
    · rw [hs] at h'
      cases h'
    · rw [hs] at h'
      cases h'
  · rw [hstate] at hs'
    cases hs'
  · show v.requests = v.delivered + _
    rw [hdel]
    simp [due]

/-- A loop that is told to exit, or is finished, dispatches less. -/
theorem Known.exit {loop : EventLoop} (hexit : loop.exit_requested = true)
    (hfin : v.loop.finished = true → loop.finished = true) :
    View.Known { v with loop := loop } := by
  refine ⟨fun hr => ?_, h.fresh, h.inside, h.returned,
    fun _ hno => absurd (hexit.symm.trans hno) (by simp), fun hf hr hs hc => ⟨?_, fun hno => ?_⟩,
    h.freed, h.entered, h.delivered⟩
  · obtain ⟨h1, h2, h3, h4, -⟩ := h.running hr
    exact ⟨h1, h2, h3, h4, fun hno => absurd (hexit.symm.trans hno) (by simp)⟩
  · exact fun hno => absurd (hexit.symm.trans hno) (by simp)
  · refine (h.queued hf hr hs hc).2 ?_
    cases hv : v.loop.finished with
    | true => exact absurd ((hfin hv).symm.trans hno) (by simp)
    | false => rfl

end

/-- A fiber that has just been made. -/
theorem known_new (loop : EventLoop) (event : Nat) (on_fiber : Bool) :
    View.Known ⟨loop, sd_fiber_new event on_fiber, .fresh, false, false, 0, 0, 0⟩ :=
  ⟨fun hr => (by cases hr), fun _ => ⟨rfl, .inl rfl⟩, fun hp => (by cases hp),
    fun hp => (by cases hp), fun hs => (by cases hs), fun _ _ _ _ => ⟨fun _ => rfl, fun _ => .inl rfl⟩,
    fun hf => (by cases hf), Nat.zero_le _, rfl⟩

end View

namespace Sched

variable {s s' : Sched}

/-! ## Section 5: The invariant -/

def view (s : Sched) (φ : Nat) : View where
  loop := s.loops (s.fibers φ).event
  fiber := s.fibers φ
  progress := s.progress φ
  freed := s.freed φ
  runs := φ ∈ s.stack
  entered := s.entered φ
  requests := s.requests φ
  delivered := s.delivered φ

structure Inv (s : Sched) : Prop where
  known : ∀ φ < s.next, (s.view φ).Known
  unmade : ∀ φ, s.next ≤ φ → s.freed φ = false ∧ s.progress φ = .fresh ∧ s.entered φ = 0 ∧
    s.requests φ = 0 ∧ s.delivered φ = 0
  stack : ∀ φ ∈ s.stack, φ < s.next
  once : s.stack.Nodup
  finished : ∀ e, (s.loops e).finished = true → (s.loops e).exit_requested = true
  crashed : s.crashed = none ∨ s.crashed = some .free

variable {φ : Nat}

theorem runs_eq_false (h : φ ∉ s.stack) : (s.view φ).runs = false := by
  simp [view, h]

/-- **A change of one fiber** -/
theorem Inv.change (h : s.Inv) (hφ : φ < s.next) {v : View} (hv : v.Known) (hself : s'.view φ = v)
    (hother : ∀ ψ, ψ ≠ φ → s'.view ψ = s.view ψ) (hnext : s'.next = s.next)
    (hloops : s'.loops = s.loops) (hstack : ∀ ψ ∈ s'.stack, ψ < s.next) (honce : s'.stack.Nodup)
    (hcrashed : s'.crashed = s.crashed) : s'.Inv := by
  refine ⟨fun ψ hψ => ?_, fun ψ hψ => ?_, fun ψ hψ => hnext ▸ hstack ψ hψ, honce,
    fun e => hloops ▸ h.finished e, hcrashed ▸ h.crashed⟩
  · by_cases hψφ : ψ = φ
    · rw [hψφ, hself]
      exact hv
    · rw [hother ψ hψφ]
      exact h.known ψ (hnext ▸ hψ)
  · have hψφ : ψ ≠ φ := by omega
    have hv := hother ψ hψφ
    have hu := h.unmade ψ (hnext ▸ hψ)
    have hfreed : s'.freed ψ = s.freed ψ := congrArg View.freed hv
    have hprogress : s'.progress ψ = s.progress ψ := congrArg View.progress hv
    have hentered : s'.entered ψ = s.entered ψ := congrArg View.entered hv
    have hrequests : s'.requests ψ = s.requests ψ := congrArg View.requests hv
    have hdelivered : s'.delivered ψ = s.delivered ψ := congrArg View.delivered hv
    rw [hfreed, hprogress, hentered, hrequests, hdelivered]
    exact hu

/-- What another fiber is seen as, if its entries stay and it runs as before. -/
theorem view_eq {ψ : Nat} (hfibers : s'.fibers ψ = s.fibers ψ) (hloops : s'.loops = s.loops)
    (hprogress : s'.progress ψ = s.progress ψ) (hfreed : s'.freed ψ = s.freed ψ)
    (hstack : ψ ∈ s'.stack ↔ ψ ∈ s.stack) (hentered : s'.entered ψ = s.entered ψ)
    (hrequests : s'.requests ψ = s.requests ψ) (hdelivered : s'.delivered ψ = s.delivered ψ) :
    s'.view ψ = s.view ψ := by
  refine View.ext ?_ hfibers hprogress hfreed (decide_eq_decide.mpr hstack) hentered hrequests
    hdelivered
  show s'.loops (s'.fibers ψ).event = s.loops (s.fibers ψ).event
  rw [hfibers, hloops]

/-- A change of the record of a fiber only. -/
theorem view_set_of_ne {ψ : Nat} (hψ : ψ ≠ φ) (fiber : Fiber) : (s.set φ fiber).view ψ = s.view ψ :=
  view_eq (update_of_ne hψ _ _) rfl rfl rfl Iff.rfl rfl rfl rfl

/-- What the fiber itself is seen as. -/
theorem view_self {v : View} (hfiber : s'.fibers φ = v.fiber)
    (hevent : v.fiber.event = (s.fibers φ).event) (hloops : s'.loops = s.loops)
    (hloop : v.loop = s.loops (s.fibers φ).event) (hprogress : s'.progress φ = v.progress)
    (hfreed : s'.freed φ = v.freed) (hruns : decide (φ ∈ s'.stack) = v.runs)
    (hentered : s'.entered φ = v.entered) (hrequests : s'.requests φ = v.requests)
    (hdelivered : s'.delivered φ = v.delivered) : s'.view φ = v := by
  refine View.ext ?_ hfiber hprogress hfreed hruns hentered hrequests hdelivered
  show s'.loops (s'.fibers φ).event = v.loop
  rw [hfiber, hloops, hevent, hloop]

/-! ### What the event loop does -/

/-- **The event loop runs a fiber** whose source it has dispatched. -/
theorem Inv.fiber_run (h : s.Inv) (hφ : φ < s.next) (hstack : φ ∉ s.stack)
    (hfreed : s.freed φ = false)
    (hs : (s.fibers φ).state = .INITIAL → (s.loops (s.fibers φ).event).exit_requested = false)
    (hno : (s.fibers φ).state ≠ .SUSPENDED) (hnc : (s.fibers φ).state ≠ .COMPLETED) :
    (s.fiber_run φ ((s.fibers φ).dispatched (s.loops (s.fibers φ).event).exit_requested)).Inv := by
  have hk := h.known φ hφ
  have hruns := runs_eq_false hstack
  have hstack' : ∀ ψ ∈ φ :: s.stack, ψ < s.next := by
    intro ψ hψ
    rcases mem_cons.mp hψ with rfl | hψ
    · exact hφ
    · exact h.stack ψ hψ
  have hdisp : ((s.fibers φ).dispatched (s.loops (s.fibers φ).event).exit_requested).state =
      (s.fibers φ).state := dispatched_state _ _
  -- the two ways it goes on: the function is called, or it goes on
  have hgo : (s.fibers φ).state = .READY ∨ (s.fibers φ).state = .CANCELLED →
      (s.fiber_enter φ ((s.fibers φ).dispatched
        (s.loops (s.fibers φ).event).exit_requested)).Inv := by
    intro hready
    have hinside : s.progress φ = .inside := hk.progress_inside (.inr hready)
    have hresume := hk.resume hfreed hready hruns rfl
    unfold fiber_enter
    rw [hinside]
    rw [if_neg hstack]
    have hevent : (fiber_swap_resumed ((s.fibers φ).dispatched
        (s.loops (s.fibers φ).event).exit_requested)).2.event = (s.fibers φ).event := by
      unfold fiber_swap_resumed
      split
      · simp
      · simp
    refine h.change hφ hresume (view_self (s := s) (update_self _ _ _) hevent rfl rfl rfl rfl
      (decide_eq_true (.head _)) rfl rfl ?_) (fun ψ hψ => ?_) rfl rfl hstack'
        (nodup_cons.mpr ⟨hstack, h.once⟩) rfl
    · refine (update_self _ _ _).trans ?_
      rw [hdisp]
      rfl
    · exact view_eq (update_of_ne hψ _ _) rfl rfl rfl (by simp [hψ]) rfl rfl
        (update_of_ne hψ _ _)
  unfold Sched.fiber_run
  rw [hdisp]
  cases hstate : (s.fibers φ).state with
  | COMPLETED => exact absurd hstate hnc
  | SUSPENDED => exact absurd hstate hno
  | READY => exact hgo (.inl hstate)
  | CANCELLED => exact hgo (.inr hstate)
  | INITIAL =>
    have hfresh : s.progress φ = .fresh := hk.progress_initial hruns hstate
    have henter := hk.enter hruns hfreed hstate
    rw [hs hstate]
    unfold fiber_enter
    rw [hfresh]
    rw [if_neg (by rw [dispatched_state, hstate]; decide)]
    refine h.change hφ henter (view_self (s := s) (update_self _ _ _)
      (dispatched_event false _) rfl rfl (update_self _ _ _) rfl
      (decide_eq_true (.head _)) (update_self _ _ _) rfl rfl) (fun ψ hψ => ?_) rfl rfl
        hstack' (nodup_cons.mpr ⟨hstack, h.once⟩) rfl
    exact view_eq (update_of_ne hψ _ _) rfl (update_of_ne hψ _ _) rfl
      (by simp [hψ]) (update_of_ne hψ _ _) rfl rfl

/-- A cancellation that is accepted. -/
theorem Inv.cancelled (h : s.Inv) (hφ : φ < s.next) (hstack : φ ∉ s.stack)
    (hfreed : s.freed φ = false) {e : EventState} {fiber : Fiber}
    (hstate : fiber.state = (s.fibers φ).state) (hevent : fiber.event = (s.fibers φ).event)
    (he : e = .EXITING → (s.loops (s.fibers φ).event).exit_requested = true)
    (hok : (fiber_cancel e fiber).1 = .ok true) : (s.cancelled φ e fiber).Inv := by
  have hk := (h.known φ hφ).cancel (runs_eq_false hstack) hfreed hstate he hok
  have hevent' : (fiber_cancel e fiber).2.event = (s.fibers φ).event := by
    rcases fiber_cancel_cases e fiber with ⟨-, hc⟩ | ⟨-, hc⟩ | ⟨-, ⟨-, hc⟩ | ⟨armed, ha, hc⟩⟩
    · rw [hc]
      exact hevent
    · rw [hc]
      exact hevent
    · rw [hc]
      exact hevent
    · rw [hc]
      refine Eq.trans ?_ hevent
      cases e with
      | FINISHED => cases ha
      | EXITING => rw [← Option.some.inj ha]
      | INITIAL => rw [← Option.some.inj ha]
      | RUNNING => rw [← Option.some.inj ha]
  refine h.change hφ hk (view_self (s := s) (update_self _ _ _) hevent' rfl rfl rfl rfl rfl rfl
    ?_ rfl) (fun ψ hψ => ?_) rfl rfl h.stack h.once rfl
  · refine (update_self _ _ _).trans ?_
    rw [hok]
    rfl
  · exact view_eq (update_of_ne hψ _ _) rfl rfl rfl Iff.rfl rfl
      (update_of_ne hψ _ _) rfl

/-- **The event loop dispatches a source of a fiber.** -/
theorem Inv.dispatch (h : s.Inv) (hst : s.dispatch φ = some s') : s'.Inv := by
  unfold Sched.dispatch at hst
  dsimp only at hst
  split at hst
  · next hguard =>
    simp only [and_eq_true, alive, decide_eq_true_eq, not_eq_true',
      all_eq_true] at hguard
    obtain ⟨⟨⟨⟨hφ, hfreed⟩, henabled⟩, hfin⟩, hother⟩ := hguard
    -- the loop runs no other fiber, so it does not run this one
    have hstack : φ ∉ s.stack := fun hin => absurd rfl (hother φ hin)
    have hk := h.known φ hφ
    have hset : ∀ exit, (s.fibers φ).state = .COMPLETED →
        (s.set φ ((s.fibers φ).dispatched exit)).Inv := fun exit hc =>
      h.change hφ (hk.completed hc exit) (view_self (s := s) (update_self _ _ _)
        (dispatched_event _ _) rfl rfl rfl rfl rfl rfl rfl rfl)
          (fun ψ hψ => view_set_of_ne hψ _) rfl rfl h.stack h.once rfl
    by_cases hnc : (s.fibers φ).state = .COMPLETED
    · split at hst
      · cases hst
        unfold fiber_on_exit
        rw [if_pos (by simp [hnc])]
        exact hset true hnc
      · cases hst
        unfold Sched.fiber_run
        rw [dispatched_state, hnc]
        exact hset false hnc
    split at hst
    · next hexit =>
      cases hst
      unfold fiber_on_exit
      have hhead : ¬ s.stack.head? = some φ := fun he => hstack (mem_of_mem_head? he)
      rw [dispatched_state, if_neg hnc, if_neg hhead]
      -- it is cancelled, and run if that has been so before
      rcases fiber_cancel_cases .EXITING ((s.fibers φ).dispatched true) with
        ⟨hs, hc⟩ | ⟨-, hc⟩ | ⟨-, ⟨ha, -⟩ | ⟨armed, -, hc⟩⟩
      · rw [hc]
        have hrun := h.fiber_run hφ hstack hfreed (fun hi => ?_) (fun hsus => ?_) hnc
        · rw [hexit] at hrun
          exact hrun
        · simp [hi] at hs
        · simp [hsus] at hs
      · have hok : (fiber_cancel .EXITING ((s.fibers φ).dispatched true)).1 = .ok true := by rw [hc]
        rw [hok]
        exact h.cancelled hφ hstack hfreed (dispatched_state _ _) (dispatched_event _ _)
          (fun _ => hexit) hok
      · cases ha
      · have hok : (fiber_cancel .EXITING ((s.fibers φ).dispatched true)).1 = .ok true := by rw [hc]
        rw [hok]
        exact h.cancelled hφ hstack hfreed (dispatched_state _ _) (dispatched_event _ _)
          (fun _ => hexit) hok
    · next hexit =>
      cases hst
      have hexit' : (s.loops (s.fibers φ).event).exit_requested = false := by simpa using hexit
      rw [hexit'] at henabled
      have hrun := h.fiber_run hφ hstack hfreed (fun _ => hexit') (fun hsus => ?_) hnc
      · rw [hexit'] at hrun
        exact hrun
      · -- the deferred source of a suspended fiber is off
        have hoff := hk.suspended hsus hexit'
        rw [show (s.fibers φ).enabled false = (s.fibers φ).defer_enabled from rfl] at henabled
        rw [show (s.view φ).fiber.defer_enabled = (s.fibers φ).defer_enabled from rfl,
          henabled] at hoff
        cases hoff
  · cases hst

/-! ## Section 6: Every step -/

/-- An event loop that is told to exit, or has come to its end. -/
theorem Inv.loop (h : s.Inv) {event : Nat} (loop : EventLoop) (hexit : loop.exit_requested = true)
    (hfin : (s.loops event).finished = true → loop.finished = true) :
    ({ s with loops := update s.loops event loop } : Sched).Inv := by
  refine ⟨fun φ hφ => ?_, h.unmade, h.stack, h.once, fun e he => ?_, h.crashed⟩
  · have hk := h.known φ hφ
    by_cases hevent : (s.fibers φ).event = event
    · have hview : ({ s with loops := update s.loops event loop } : Sched).view φ =
          { s.view φ with loop := loop } := by
        refine View.ext ?_ rfl rfl rfl rfl rfl rfl rfl
        show update s.loops event loop (s.fibers φ).event = loop
        rw [hevent, update_self]
      rw [hview]
      refine hk.exit hexit fun hf => hfin ?_
      rw [← hevent]
      exact hf
    · have hview : ({ s with loops := update s.loops event loop } : Sched).view φ =
          s.view φ := by
        refine View.ext ?_ rfl rfl rfl rfl rfl rfl rfl
        exact update_of_ne hevent _ _
      rw [hview]
      exact hk
  · dsimp only at he ⊢
    by_cases hev : e = event
    · subst hev
      rw [update_self]
      exact hexit
    · have he' : (update s.loops event loop e).finished = true := he
      rw [update_of_ne hev] at he' ⊢
      exact h.finished e he'

/-- What may be seen of an event loop goes with its entries. -/
theorem may_see_exiting {event : Nat} (h : s.may_see event .EXITING = true) :
    (s.loops event).exit_requested = true := by
  simp only [may_see, and_eq_true] at h
  exact h.2

/-- **Step lemma**: every step that does nothing from outside to a fiber that
    runs keeps the invariant. -/
theorem Inv.step (h : s.Inv) {label : SchedLabel} (hok : s.NotRunning label)
    (hst : s.step label = some s') : s'.Inv := by
  unfold Sched.step at hst
  split at hst
  · cases hst
  cases label with
  | new event seen =>
    dsimp only at hst
    split at hst
    · cases hst
      have hnew := h.unmade s.next (Nat.le_refl _)
      have hnot : s.next ∉ s.stack := fun hin => Nat.lt_irrefl _ (h.stack _ hin)
      have hold : ∀ ψ, ψ ≠ s.next → ({ s.set s.next (sd_fiber_new event (s.stack ≠ [])) with
          next := s.next + 1 } : Sched).view ψ = s.view ψ := fun ψ hψ => view_set_of_ne hψ _
      refine ⟨fun φ hφ => ?_, fun φ hφ => h.unmade φ (by
        have hφ' : s.next + 1 ≤ φ := hφ
        omega), fun φ hφ => Nat.lt_succ_of_lt (h.stack φ hφ), h.once, h.finished, h.crashed⟩
      by_cases hn : φ = s.next
      · subst hn
        have hview : ({ s.set s.next (sd_fiber_new event (s.stack ≠ [])) with
            next := s.next + 1 } : Sched).view s.next =
              ⟨s.loops event, sd_fiber_new event (s.stack ≠ []), .fresh, false, false, 0, 0, 0⟩ := by
          have hself : (s.set s.next (sd_fiber_new event (s.stack ≠ []))).fibers s.next =
            sd_fiber_new event (s.stack ≠ []) := update_self _ _ _
          refine View.ext ?_ hself hnew.2.1 hnew.1 (decide_eq_false hnot) hnew.2.2.1 hnew.2.2.2.1
            hnew.2.2.2.2
          show s.loops ((s.set s.next _).fibers s.next).event = _
          rw [hself]
          rfl
        rw [hview]
        exact View.known_new _ _ _
      · rw [hold φ hn]
        have hφ' : φ < s.next + 1 := hφ
        exact h.known φ (by omega)
    · cases hst
  | dispatch φ => exact h.dispatch hst
  | suspend =>
    dsimp only at hst
    split at hst
    · cases hst
    · next φ stack hs =>
      have hin : φ ∈ s.stack := by rw [hs]; exact .head _
      have hφ := h.stack φ hin
      have hruns : (s.view φ).runs = true := decide_eq_true hin
      have honce := h.once
      rw [hs, nodup_cons] at honce
      rw [if_neg (by rw [show s.freed φ = false from ((h.known φ hφ).running hruns).2.1]; simp)] at hst
      cases hst
      refine h.change hφ ((h.known φ hφ).suspend hruns) (view_self (s := s)
        (update_self _ _ _) rfl rfl rfl rfl rfl (decide_eq_false honce.1) rfl rfl rfl)
          (fun ψ hψ => ?_) rfl rfl (fun ψ hψ => h.stack ψ (by rw [hs]; exact .tail _ hψ)) honce.2 rfl
      exact view_eq (update_of_ne hψ _ _) rfl rfl rfl (by simp [hs, hψ]) rfl rfl rfl
  | finish result =>
    dsimp only at hst
    split at hst
    · cases hst
    · next φ stack hs =>
      have hin : φ ∈ s.stack := by rw [hs]; exact .head _
      have hφ := h.stack φ hin
      have hruns : (s.view φ).runs = true := decide_eq_true hin
      have honce := h.once
      rw [hs, nodup_cons] at honce
      rw [if_neg (by rw [show s.freed φ = false from ((h.known φ hφ).running hruns).2.1]; simp)] at hst
      cases hst
      refine h.change hφ ((h.known φ hφ).finish hruns result) (view_self (s := s)
        (update_self _ _ _) rfl rfl rfl (update_self _ _ _) rfl
          (decide_eq_false honce.1) rfl rfl rfl) (fun ψ hψ => ?_) rfl rfl
            (fun ψ hψ => h.stack ψ (by rw [hs]; exact .tail _ hψ)) honce.2 rfl
      exact view_eq (update_of_ne hψ _ _) rfl (update_of_ne hψ _ _) rfl
        (by simp [hs, hψ]) rfl rfl rfl
  | resume φ result seen =>
    dsimp only at hst
    split at hst
    · next hguard =>
      cases hst
      simp only [and_eq_true, alive, decide_eq_true_eq] at hguard
      obtain ⟨⟨hφ, -⟩, hseen⟩ := hguard
      refine h.change hφ ((h.known φ hφ).wake (runs_eq_false hok) result (fun he => ?_) fun he => ?_)
        (view_self (s := s) (update_self _ _ _) (sd_fiber_resume_event _ _ _) rfl rfl rfl rfl
          rfl rfl rfl rfl) (fun ψ hψ => view_set_of_ne hψ _) rfl rfl h.stack h.once rfl
      · rw [he] at hseen
        exact ⟨hseen, h.finished _ hseen⟩
      · rw [he] at hseen
        exact may_see_exiting hseen
    · cases hst
  | cancel φ seen =>
    dsimp only at hst
    split at hst
    · next hguard =>
      simp only [and_eq_true, alive, decide_eq_true_eq, not_eq_true'] at hguard
      obtain ⟨⟨hφ, hfreed⟩, hseen⟩ := hguard
      have hhead : ¬ s.stack.head? = some φ := fun he => hok (mem_of_mem_head? he)
      rw [if_neg hhead] at hst
      cases hst
      have hquiet : (fiber_cancel seen (s.fibers φ)).2 = s.fibers φ →
          s.counts φ (fiber_cancel seen (s.fibers φ)).1 = 0 →
            (s.cancelled φ seen (s.fibers φ)).Inv := by
        intro hsame hzero
        refine h.change hφ (h.known φ hφ) (view_self (s := s) ((update_self _ _ _).trans hsame)
          rfl rfl rfl rfl rfl rfl rfl ?_ rfl) (fun ψ hψ => ?_) rfl rfl h.stack h.once rfl
        · refine (update_self _ _ _).trans ?_
          rw [hzero]
          rfl
        · exact view_eq (update_of_ne hψ _ _) rfl rfl rfl Iff.rfl rfl
            (update_of_ne hψ _ _) rfl
      have haccept : (fiber_cancel seen (s.fibers φ)).1 = .ok true →
          (s.cancelled φ seen (s.fibers φ)).Inv := by
        intro haccepted
        refine h.cancelled hφ hok hfreed rfl rfl (fun he => ?_) haccepted
        rw [he] at hseen
        exact may_see_exiting hseen
      rcases fiber_cancel_cases seen (s.fibers φ) with ⟨-, hc⟩ | ⟨-, hc⟩ | ⟨-, ⟨-, hc⟩ | ⟨_, -, hc⟩⟩
      · exact hquiet (by rw [hc]) (by rw [hc]; rfl)
      · exact haccept (by rw [hc])
      · exact hquiet (by rw [hc]) (by rw [hc]; rfl)
      · exact haccept (by rw [hc])
    · cases hst
  | release φ =>
    dsimp only at hst
    split at hst
    · next hguard =>
      simp only [and_eq_true, alive, decide_eq_true_eq] at hguard
      obtain ⟨hφ, -⟩ := hguard
      split at hst
      · next hs =>
        cases hst
        refine h.change hφ ((h.known φ hφ).release (runs_eq_false hok) hs) (view_self (s := s)
          (update_self _ _ _) rfl rfl rfl rfl (update_self _ _ _) rfl rfl rfl rfl)
            (fun ψ hψ => ?_) rfl rfl h.stack h.once rfl
        exact view_eq (update_of_ne hψ _ _) rfl rfl (update_of_ne hψ _ _) Iff.rfl rfl
          rfl rfl
      · cases hst
        exact ⟨h.known, h.unmade, h.stack, h.once, h.finished, .inr rfl⟩
    · cases hst
  | exit event =>
    cases hst
    exact h.loop ⟨true, (s.loops event).finished⟩ rfl id
  | finished event =>
    dsimp only at hst
    split at hst
    · cases hst
      exact h.loop ⟨true, true⟩ rfl fun _ => rfl
    · cases hst

theorem Inv.initial (h : s.initial) : s.Inv := by
  obtain ⟨hnext, hfreed, hprogress, hstack, hcrashed, hentered, hrequests, hdelivered, hloops⟩ := h
  refine ⟨fun φ hφ => ?_, fun φ _ => ⟨hfreed φ, hprogress φ, hentered φ, hrequests φ, hdelivered φ⟩,
    fun φ hφ => ?_, ?_, fun e he => ?_, .inl hcrashed⟩
  · omega
  · rw [hstack] at hφ
    cases hφ
  · rw [hstack]
    exact nodup_nil
  · rw [hloops e] at he
    cases he

theorem Inv.sound (h : s.Inv) : s.Sound := by
  -- what is not made yet is known too
  have hcount : ∀ φ, s.entered φ ≤ 1 ∧ s.requests φ = s.delivered φ + s.due φ := by
    intro φ
    by_cases hφ : φ < s.next
    · have hk := h.known φ hφ
      refine ⟨hk.entered, hk.delivered.trans ?_⟩
      unfold View.due due view
      simp
    · obtain ⟨-, hp, he, hr, hd⟩ := h.unmade φ (by omega)
      rw [hr, hd]
      exact ⟨by omega, by simp [due, hp]⟩
  refine ⟨fun φ => (hcount φ).1, fun φ hf => ?_, h.once, fun φ hφ => ?_, h.crashed,
    fun φ => (hcount φ).2, fun φ hφ hf hn hs hc => ?_⟩
  · by_cases hφ : φ < s.next
    · have hk := h.known φ hφ
      have hne : s.progress φ ≠ .inside := hk.freed hf
      refine ⟨?_, fun hin => ?_⟩
      · cases hp : s.progress φ with
        | fresh => exact .inl (hk.fresh hp).1
        | inside => exact absurd hp hne
        | returned => exact .inr rfl
      · exact hne (hk.running (decide_eq_true hin)).1
    · rw [(h.unmade φ (by omega)).1] at hf
      cases hf
  · have hr := (h.known φ (h.stack φ hφ)).running (decide_eq_true hφ)
    exact ⟨hr.2.2.1, hr.2.2.2.1⟩
  · exact (h.known φ hφ).queued hf (runs_eq_false hn) hs hc

/-! ## Section 7: Fibers whose states say where they are -/

/-- **The states of a fiber**: in every run in which nothing is done from outside
    to a fiber that runs, and a wake-up leaves no fiber suspended. -/
theorem fiber_states (h : Reachable (scheduling.restrict NotRunning) s) :
    s.Sound ∧ ∀ φ result seen s', φ ∉ s.stack → s.step (.resume φ result seen) = some s' →
      (s'.fibers φ).state ≠ .SUSPENDED ∧
        ((s.fibers φ).state = .SUSPENDED → (s'.fibers φ).result = result) := by
  have hinv : ∀ s, Reachable (scheduling.restrict NotRunning) s → s.Inv := by
    intro s hs
    induction hs with
    | init hi => exact Inv.initial hi
    | step _ hst ih => exact ih.step hst.1 hst.2
  refine ⟨(hinv s h).sound, fun φ result seen s' _ hst => ?_⟩
  unfold Sched.step at hst
  split at hst
  · cases hst
  · dsimp only at hst
    split at hst
    · cases hst
      have hself : (s.set φ (sd_fiber_resume seen result (s.fibers φ))).fibers φ =
        sd_fiber_resume seen result (s.fibers φ) := update_self _ _ _
      rw [hself]
      by_cases hs : (s.fibers φ).state = .SUSPENDED
      · obtain ⟨hready, hresult⟩ := sd_fiber_resume_of_suspended hs seen result
        rw [hready]
        exact ⟨by decide, fun _ => hresult⟩
      · rw [sd_fiber_resume_of_ne hs]
        exact ⟨hs, fun he => absurd he hs⟩
    · cases hst

/-- No fibers, and two event loops that have not been told to exit. -/
def first : Sched where
  fibers := fun _ => sd_fiber_new 0 false
  next := 0
  freed := fun _ => false
  progress := fun _ => .fresh
  loops := fun _ => ⟨false, false⟩
  stack := []
  crashed := none
  entered := fun _ => 0
  requests := fun _ => 0
  delivered := fun _ => 0

theorem first_initial : first.initial :=
  ⟨rfl, fun _ => rfl, fun _ => rfl, rfl, rfl, fun _ => rfl, fun _ => rfl, fun _ => rfl, fun _ => rfl⟩

/-- Whether a step meets the condition. -/
def not_running (s : Sched) : SchedLabel → Bool
  | .resume φ _ _ | .cancel φ _ | .release φ => φ ∉ s.stack
  | _ => true

theorem not_running_of_check (label : SchedLabel) (h : s.not_running label = true) :
    s.NotRunning label := by
  cases label with
  | resume φ result seen =>
    show φ ∉ s.stack
    simpa [not_running] using h
  | cancel φ seen =>
    show φ ∉ s.stack
    simpa [not_running] using h
  | release φ =>
    show φ ∉ s.stack
    simpa [not_running] using h
  | _ => trivial

/-- A fiber is entered, suspends, is woken up and cancelled, gets the error and
    returns. -/
def returned_one : Sched :=
  (steps step [.new 0 .INITIAL, .dispatch 0, .suspend, .resume 0 7 .INITIAL, .cancel 0 .INITIAL,
    .dispatch 0, .finish 3] first).getD first

theorem fiber_states_one : returned_one.Sound ∧ returned_one.requests 0 = 1 ∧
    ∀ result seen s', returned_one.step (.resume 0 result seen) = some s' →
      (s'.fibers 0).state ≠ .SUSPENDED := by
  have hfirst : Reachable ((System.of_step initial step).restrict NotRunning) first :=
    .init first_initial
  have hrun : steps (fun s label => if s.not_running label then s.step label else none)
      [.new 0 .INITIAL, .dispatch 0, .suspend, .resume 0 7 .INITIAL, .cancel 0 .INITIAL,
        .dispatch 0, .finish 3] first = some returned_one := rfl
  have h := fiber_states (hfirst.steps_checked (fun _ => not_running_of_check) hrun)
  exact ⟨h.1, by decide, fun result seen s' hst =>
    (h.2 0 result seen s' (by decide) hst).1⟩

/-- A fiber that has been entered and not suspended yet still says
    `FIBER_STATE_INITIAL`. Another fiber that it runs, in another event loop,
    cancels it, which completes it at once, and gives back the last reference:
    the stack is released while the function of the fiber is on it. -/
theorem running_fiber_released : ¬ ∀ s, Reachable scheduling s → s.Sound := by
  intro h
  have hrun : steps step [.new 0 .INITIAL, .dispatch 0, .new 1 .INITIAL, .dispatch 1,
      .cancel 0 .RUNNING, .release 0] first = some ((steps step [.new 0 .INITIAL, .dispatch 0,
        .new 1 .INITIAL, .dispatch 1, .cancel 0 .RUNNING, .release 0] first).getD first) := rfl
  have hsound := h _ (Reachable.of_steps first_initial hrun)
  have hstack := (hsound.released 0 (by decide)).2
  revert hstack
  decide

end Sched

end SdCompat.Fibers
