import SdCompat.Basic.Common

/-! # Fibers (sd-future/fiber.c)

    What the functions of fiber.c do to the record of one fiber. Where control
    is, and which fibers there are, is for the systems that are built of them:
    `SdFuture/FiberRun.lean` for the states of a fiber, `SdFuture/Await.lean`
    for waiting on a future.

    Stacks, the log state and the priorities are left out; so is
    `pthread_atfork`, which does not fail here.
-/

namespace SdCompat.Fibers

/-! ## Section 1: Data -/

/-- Error numbers as they are handed on in the result of a future. -/
def ECANCELED : Int := 125
def ETIME : Int := 62

inductive FiberState where
  | INITIAL | READY | SUSPENDED | CANCELLED | COMPLETED
  deriving DecidableEq, Repr

/-- The states of an event loop a fiber can tell apart: no dispatching is
    going on, a source is being dispatched, an exit source is, or the loop has
    come to its end. -/
inductive EventState where
  | INITIAL | RUNNING | EXITING | FINISHED
  deriving DecidableEq, Repr

/-- `Fiber`. The event sources exist until the fiber is completed; what is kept
    of them is whether they are enabled, which is `SD_EVENT_ONESHOT`. -/
structure Fiber where
  event : Nat
  state : FiberState
  result : Int
  defer_enabled : Bool
  exit_enabled : Bool
  deriving DecidableEq, Repr

/-! ## Section 2: Functions -/

/-- `sd_fiber_new`: the exit source is off if this happens on a fiber. -/
def sd_fiber_new (event : Nat) (on_fiber : Bool) : Fiber where
  event := event
  state := .INITIAL
  result := 0
  defer_enabled := true
  exit_enabled := !on_fiber

namespace Fiber

/-- `sd_event_source_set_enabled (fiber_current_event_source (fiber), SD_EVENT_ONESHOT)`,
    which fails when the event loop is finished. -/
def enable_current (e : EventState) (fiber : Fiber) : Option Fiber :=
  match e with
  | .FINISHED => none
  | .EXITING => some { fiber with exit_enabled := true }
  | .INITIAL | .RUNNING => some { fiber with defer_enabled := true }

/-- Whether the exit source, or the deferred one, is enabled. -/
def enabled (exit : Bool) (fiber : Fiber) : Bool :=
  if exit then fiber.exit_enabled else fiber.defer_enabled

/-- The event loop disables a source before it dispatches it. -/
def dispatched (exit : Bool) (fiber : Fiber) : Fiber :=
  if exit then { fiber with exit_enabled := false } else { fiber with defer_enabled := false }

/-- `sd_event_source_disable_unref` on both sources. -/
def disable (fiber : Fiber) : Fiber :=
  { fiber with defer_enabled := false, exit_enabled := false }

end Fiber

/-- `sd_fiber_resume`: what is left of the fiber, also where the source cannot
    be enabled any more. -/
def sd_fiber_resume (e : EventState) (result : Int) (fiber : Fiber) : Fiber :=
  if fiber.state ≠ .SUSPENDED then fiber
  else
    let fiber := { fiber with result := result, state := .READY }
    (fiber.enable_current e).getD fiber

/-- `fiber_swap`, up to the jump. -/
def fiber_swap (fiber : Fiber) : Fiber := { fiber with state := .SUSPENDED }

/-- `fiber_swap`, from where the fiber has been resumed: what it returns, and
    what is left of the fiber. -/
def fiber_swap_resumed (fiber : Fiber) : Int × Fiber :=
  if fiber.state = .CANCELLED then (-ECANCELED, fiber)
  else (fiber.result, { fiber with result := 0 })

/-- `fiber_cancel`: what it returns, and what is left of the fiber. A fiber that
    is completed by it is still to be resolved. -/
def fiber_cancel (e : EventState) (fiber : Fiber) : Except Errno Bool × Fiber :=
  match fiber.state with
  | .COMPLETED | .CANCELLED => (.ok false, fiber)
  | .INITIAL =>
    (.ok true, { fiber with result := -ECANCELED, state := .COMPLETED }.disable)
  | .READY | .SUSPENDED =>
    match fiber.enable_current e with
    | none => (.error .ESTALE, fiber)
    | some fiber => (.ok true, { fiber with state := .CANCELLED })

/-- The last steps of `fiber_entry_point`, and `fiber_resolve`. -/
def fiber_complete (result : Int) (fiber : Fiber) : Fiber :=
  { fiber with result := result, state := .COMPLETED }.disable

/-! ## Section 3: What the functions leave alone -/

variable {fiber : Fiber}

/-- A fiber that is not suspended is not resumed. -/
theorem sd_fiber_resume_of_ne (h : fiber.state ≠ .SUSPENDED) (e : EventState) (result : Int) :
    sd_fiber_resume e result fiber = fiber := by
  simp [sd_fiber_resume, h]

/-- One that is suspended keeps the result it is resumed with. -/
theorem sd_fiber_resume_of_suspended (h : fiber.state = .SUSPENDED) (e : EventState) (result : Int) :
    (sd_fiber_resume e result fiber).state = .READY ∧
      (sd_fiber_resume e result fiber).result = result := by
  cases e with
  | INITIAL => simp [sd_fiber_resume, h, Fiber.enable_current]
  | RUNNING => simp [sd_fiber_resume, h, Fiber.enable_current]
  | EXITING => simp [sd_fiber_resume, h, Fiber.enable_current]
  | FINISHED => simp [sd_fiber_resume, h, Fiber.enable_current]

@[simp] theorem Fiber.dispatched_state (exit : Bool) (fiber : Fiber) :
    (fiber.dispatched exit).state = fiber.state := by
  cases exit with
  | true => rfl
  | false => rfl

@[simp] theorem Fiber.dispatched_result (exit : Bool) (fiber : Fiber) :
    (fiber.dispatched exit).result = fiber.result := by
  cases exit with
  | true => rfl
  | false => rfl

@[simp] theorem Fiber.dispatched_event (exit : Bool) (fiber : Fiber) :
    (fiber.dispatched exit).event = fiber.event := by
  cases exit with
  | true => rfl
  | false => rfl

/-- The event loop of a fiber is never changed. -/
@[simp] theorem sd_fiber_resume_event (e : EventState) (result : Int) (fiber : Fiber) :
    (sd_fiber_resume e result fiber).event = fiber.event := by
  by_cases h : fiber.state = .SUSPENDED
  · cases e with
    | INITIAL => simp [sd_fiber_resume, h, Fiber.enable_current]
    | RUNNING => simp [sd_fiber_resume, h, Fiber.enable_current]
    | EXITING => simp [sd_fiber_resume, h, Fiber.enable_current]
    | FINISHED => simp [sd_fiber_resume, h, Fiber.enable_current]
  · rw [sd_fiber_resume_of_ne h]

/-- The three ways `fiber_cancel` goes. -/
theorem fiber_cancel_cases (e : EventState) (fiber : Fiber) :
    ((fiber.state = .COMPLETED ∨ fiber.state = .CANCELLED) ∧
      fiber_cancel e fiber = (.ok false, fiber)) ∨
    (fiber.state = .INITIAL ∧
      fiber_cancel e fiber = (.ok true, fiber_complete (-ECANCELED) fiber)) ∨
    ((fiber.state = .READY ∨ fiber.state = .SUSPENDED) ∧
      ((fiber.enable_current e = none ∧ fiber_cancel e fiber = (.error .ESTALE, fiber)) ∨
        ∃ armed, fiber.enable_current e = some armed ∧
          fiber_cancel e fiber = (.ok true, { armed with state := .CANCELLED }))) := by
  cases hs : fiber.state with
  | INITIAL => exact .inr (.inl ⟨rfl, by simp [fiber_cancel, hs, fiber_complete]⟩)
  | COMPLETED => exact .inl ⟨.inl rfl, by simp [fiber_cancel, hs]⟩
  | CANCELLED => exact .inl ⟨.inr rfl, by simp [fiber_cancel, hs]⟩
  | READY =>
    refine .inr (.inr ⟨.inl rfl, ?_⟩)
    cases ha : fiber.enable_current e with
    | none => exact .inl ⟨rfl, by simp [fiber_cancel, hs, ha]⟩
    | some armed => exact .inr ⟨armed, rfl, by simp [fiber_cancel, hs, ha]⟩
  | SUSPENDED =>
    refine .inr (.inr ⟨.inr rfl, ?_⟩)
    cases ha : fiber.enable_current e with
    | none => exact .inl ⟨rfl, by simp [fiber_cancel, hs, ha]⟩
    | some armed => exact .inr ⟨armed, rfl, by simp [fiber_cancel, hs, ha]⟩

end SdCompat.Fibers
