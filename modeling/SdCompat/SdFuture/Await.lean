import SdCompat.Lib.Transition
import SdCompat.SdFuture.Fiber

/-! # Waiting on a future (sd-future.c, fiber.c, fiber-io.c, bus-future.c)

    A fiber that waits is suspended, and woken up by `fiber_resume_trampoline`,
    the callback every future gets that is made on a fiber. `sd_fiber_await`
    makes a wait future for its target and suspends, `fiber_io_operation` does
    the same with a future for the file descriptor, and `bus_call_suspend` with
    one for the reply. What wakes the fiber up hands over a result in one slot
    of the fiber.

    The system below has any number of fibers, futures that are made on a fiber
    or outside, and resolved by anybody in any order, and the operations above.
    References are the subject of `SdFuture/Lifecycle.lean`. A callback is the
    trampoline or it does nothing here, memory is there, and one event loop is
    not run inside another.
-/

open Transition

namespace SdCompat.Fibers

open List Function Option

/-! ## Section 1: Data -/

/-- What a future was made for, as far as the operations below make a
    difference. A future of `sd_bus_call_async`, of a timer, of another fiber is
    `other` if the program has it in its hands. -/
inductive Purpose where
  | other
  /-- `sd_fiber_timeout` -/
  | timeout
  /-- `WaitFuture`, with its target -/
  | wait (target : Nat)
  /-- The future of `fiber_io_operation`, and that of `bus_call_suspend`. -/
  | io
  | bus
  deriving DecidableEq, Repr

/-- `sd_future`. The callback is the trampoline of some fiber, or none. -/
structure SdFuture where
  purpose : Purpose
  resolved : Bool
  result : Int
  waiters : List Nat
  callback : Option Nat
  deriving DecidableEq, Repr

/-- The operations that wait for one future. -/
inductive Op where
  | await (target : Nat)
  | io
  | bus_call
  deriving DecidableEq, Repr

/-- What the future is made for that the operation waits for. -/
def Op.purpose : Op → Purpose
  | .await t => .wait t
  | .io => .io
  | .bus_call => .bus

/-- An operation in which a fiber is suspended, with the future it has made. -/
structure Wait where
  op : Op
  own : Nat
  deriving DecidableEq, Repr

/-- What an operation returns: a result, what the repeated call on the file
    descriptor returns, or the reply that is with the future. -/
inductive Answer where
  | value (r : Int)
  | again
  | reply
  deriving DecidableEq, Repr

/-- An operation that has returned. The target is the future awaited, and for
    the other operations the one they have made. -/
structure Ended where
  fiber : Nat
  op : Op
  answer : Answer
  /-- The target when the operation returns. -/
  resolved : Bool
  result : Int
  /-- The fiber has been cancelled, or its event loop is finished. -/
  cancelled : Bool
  /-- A timeout of the fiber expired in the meantime. -/
  expired : Bool
  deriving DecidableEq, Repr

structure Waiting where
  futures : Nat → SdFuture
  next : Nat
  fibers : Nat → Fiber
  loops : Nat → EventState
  current : Option Nat
  waits : Nat → Option Wait
  /-- The waiters `sd_future_resolve` still has to resolve, with the results. -/
  todo : List (Nat × Int)
  expired : Nat → Bool
  ended : List Ended

/-! ## Section 2: Functions -/

namespace Waiting

def set_future (s : Waiting) (f : Nat) (future : SdFuture) : Waiting :=
  { s with futures := update s.futures f future }

def set_fiber (s : Waiting) (φ : Nat) (fiber : Fiber) : Waiting :=
  { s with fibers := update s.fibers φ fiber }

/-- `sd_future_new`: on a fiber, the callback is the trampoline. -/
def sd_future_new (s : Waiting) (purpose : Purpose) : Waiting :=
  { s.set_future s.next ⟨purpose, false, 0, [], s.current⟩ with next := s.next + 1 }

/-- `fiber_resume_trampoline` -/
def fiber_resume_trampoline (s : Waiting) (φ : Nat) (result : Int) : Waiting :=
  s.set_fiber φ (Fibers.sd_fiber_resume (s.loops (s.fibers φ).event) result (s.fibers φ))

/-- `f->callback (f)` -/
def invoke (s : Waiting) (callback : Option Nat) (result : Int) : Waiting :=
  match callback with
  | none => s
  | some φ => s.fiber_resume_trampoline φ result

/-- `sd_future_resolve`, up to its waiters, which are resolved in the order the
    set has them in. -/
def sd_future_resolve (s : Waiting) (f : Nat) (result : Int) (order : List Nat) : Waiting :=
  if (s.futures f).resolved then s
  else
    let s := s.set_future f { s.futures f with resolved := true, result := result, waiters := [] }
    let s := s.invoke (s.futures f).callback result
    { s with todo := order.map (fun w => (w, result)) ++ s.todo }

/-- `set_remove (wf->target->waiters, f)` -/
def remove_waiter (futures : Nat → SdFuture) (f : Nat) : Nat → SdFuture :=
  match (futures f).purpose with
  | .wait t =>
    update futures t
      { futures t with waiters := (futures t).waiters.filter (· ≠ f) }
  | _ => futures

/-- `sd_future_cancel` on the future of an operation, which nobody waits for. -/
def sd_future_cancel (s : Waiting) (f : Nat) : Waiting :=
  if (s.futures f).resolved then s
  else
    { s with futures := remove_waiter s.futures f }.sd_future_resolve f (-ECANCELED) []

/-- `sd_fiber_suspend` in an operation: the fiber gives up control. -/
def sd_fiber_suspend (s : Waiting) (φ : Nat) (wait : Wait) : Waiting :=
  { s.set_fiber φ (fiber_swap (s.fibers φ)) with
    current := none
    waits := update s.waits φ (some wait)
    expired := update s.expired φ false }

/-- The future an operation is about. -/
def target (wait : Wait) : Nat :=
  match wait.op with
  | .await t => t
  | .io | .bus_call => wait.own

/-- What an operation returns after `sd_fiber_suspend` has returned `r`. -/
def answer (s : Waiting) (wait : Wait) (r : Int) : Answer :=
  match wait.op with
  | .await _ => .value r
  | .io => if r < 0 then .value r else .again
  | .bus_call => if (s.futures wait.own).resolved then .reply else .value r

def record (s : Waiting) (φ : Nat) (wait : Wait) (answer : Answer) (cancelled : Bool) : Waiting :=
  { s with
    ended := ⟨φ, wait.op, answer, (s.futures (target wait)).resolved,
      (s.futures (target wait)).result, cancelled, s.expired φ⟩ :: s.ended }

/-- From where a fiber is resumed in an operation to the end of it: the future
    it has made goes with `sd_future_cancel_wait_unref`. -/
def resumed (s : Waiting) (φ : Nat) (wait : Wait) : Waiting :=
  let cancelled := (s.fibers φ).state = .CANCELLED
  let (r, fiber) := fiber_swap_resumed (s.fibers φ)
  let s := s.set_fiber φ fiber
  let s := s.record φ wait (s.answer wait r) cancelled
  { s.sd_future_cancel wait.own with waits := update s.waits φ none }

/-- `sd_fiber_await` on a fiber, up to where it returns or is suspended. -/
def sd_fiber_await (s : Waiting) (φ : Nat) (t : Nat) : Waiting :=
  if (s.futures t).resolved then
    s.record φ ⟨.await t, t⟩ (.value (s.futures t).result) false
  else if s.loops (s.fibers φ).event = .FINISHED then
    s.record φ ⟨.await t, t⟩ (.value (-ECANCELED)) true
  else
    let w := s.next
    let s := s.sd_future_new (.wait t)
    let s := s.set_future t { s.futures t with waiters := w :: (s.futures t).waiters }
    s.sd_fiber_suspend φ ⟨.await t, w⟩

end Waiting

/-! ## Section 3: The system -/

inductive Label where
  | create (timeout : Bool)
  | set_callback (f : Nat) (callback : Option Nat)
  | resolve (f : Nat) (result : Int) (order : List Nat)
  | resolve_waiter (order : List Nat)
  | await (target : Nat)
  | io
  | bus_call
  | run (fiber : Nat) (exit : Bool)
  | cancel (fiber : Nat)
  | finish (result : Int)
  | loop (event : Nat) (state : EventState)
  deriving DecidableEq, Repr

namespace Waiting

/-- The event loop dispatches a source of the fiber, which is disabled first
    (`SD_EVENT_ONESHOT`), and `fiber_run` enters or resumes the fiber. -/
def run (s : Waiting) (φ : Nat) (exit : Bool) : Option Waiting :=
  if !(s.fibers φ).enabled exit then none
  else
    match (s.fibers φ).state, s.waits φ with
    | .INITIAL, none =>
      some { s.set_fiber φ ((s.fibers φ).dispatched exit) with current := some φ }
    | .READY, some wait | .CANCELLED, some wait =>
      some ({ s.set_fiber φ ((s.fibers φ).dispatched exit) with
        current := some φ }.resumed φ wait)
    | _, _ => none

/-- What can be resolved from outside: a timeout expires or is cancelled, and
    the wait futures are resolved with their targets only. -/
def resolvable (future : SdFuture) (result : Int) : Bool :=
  match future.purpose with
  | .other | .io | .bus => true
  | .timeout => result = -ETIME || result = -ECANCELED
  | .wait _ => false

/-- The futures a program can wait for: those made by an operation are in local
    variables of it. -/
def awaitable (future : SdFuture) : Bool :=
  match future.purpose with
  | .other | .timeout => true
  | .io | .bus | .wait _ => false

/-- Keep in mind that a timeout of the fiber has expired. -/
def note_expired (s : Waiting) (f : Nat) (result : Int) : Waiting :=
  match (s.futures f).callback with
  | none => s
  | some φ =>
    if (s.futures f).purpose = .timeout ∧ result = -ETIME ∧ ¬ (s.futures f).resolved then
      { s with expired := update s.expired φ true }
    else s

def step (s : Waiting) (label : Label) : Option Waiting :=
  match s.todo, label with
  -- `sd_future_resolve` has waiters to resolve: nothing else goes on
  | (w, result) :: todo, .resolve_waiter order =>
    if order.Perm (s.futures w).waiters then
      some ({ s with todo := todo }.sd_future_resolve w result order)
    else none
  | _ :: _, _ => none
  | [], .resolve_waiter _ => none
  | [], .create timeout =>
    -- `sd_fiber_timeout` is for fibers
    if timeout ∧ s.current = none then none
    else some (s.sd_future_new (if timeout then .timeout else .other))
  | [], .set_callback f callback =>
    if f < s.next ∧ (s.futures f).purpose = .other then
      some (s.set_future f { s.futures f with callback := callback })
    else none
  | [], .resolve f result order =>
    if f < s.next ∧ resolvable (s.futures f) result ∧ order.Perm (s.futures f).waiters then
      some ((s.note_expired f result).sd_future_resolve f result order)
    else none
  | [], .await t =>
    match s.current with
    | some φ =>
      if t < s.next ∧ awaitable (s.futures t) then some (s.sd_fiber_await φ t) else none
    | none => none
  | [], .io => s.current.map fun φ => (s.sd_future_new .io).sd_fiber_suspend φ ⟨.io, s.next⟩
  | [], .bus_call =>
    s.current.map fun φ => (s.sd_future_new .bus).sd_fiber_suspend φ ⟨.bus_call, s.next⟩
  | [], .run φ exit => if s.current = none then s.run φ exit else none
  | [], .cancel φ =>
    -- `assert (fiber != fiber_get_current ())`
    if s.current = some φ then none
    else some (s.set_fiber φ (fiber_cancel (s.loops (s.fibers φ).event) (s.fibers φ)).2)
  | [], .finish result =>
    s.current.map fun φ =>
      { s.set_fiber φ (fiber_complete result (s.fibers φ)) with current := none }
  | [], .loop event state =>
    if s.loops event = .FINISHED then none
    else some { s with loops := update s.loops event state }

/-- In the beginning there are fibers that have not been started, and no
    futures. -/
def initial (s : Waiting) : Prop :=
  (∀ φ, (s.fibers φ).state = .INITIAL) ∧ s.next = 0 ∧ s.current = none ∧
    (∀ φ, s.waits φ = none) ∧ s.todo = [] ∧ s.ended = []

def waiting : System Waiting Label := System.of_step initial step

end Waiting

/-- An operation returned when its target had been resolved, with the result of
    it, or with the cancellation or a timeout of the fiber. -/
def Ended.Right (e : Ended) : Prop :=
  (e.resolved = true ∧
      (e.answer = .value e.result ∨ (e.answer = .again ∧ 0 ≤ e.result) ∨ e.answer = .reply)) ∨
    (e.answer = .value (-ECANCELED) ∧ e.cancelled = true) ∨
    (e.answer = .value (-ETIME) ∧ e.expired = true)

namespace Waiting

variable {s s' : Waiting}

/-! ## Section 4: The invariant -/

/-- What a fiber that has been woken up is about to return. -/
def Woken (s : Waiting) (φ : Nat) (wait : Wait) : Prop :=
  ((s.futures (target wait)).resolved = true ∧
      (s.fibers φ).result = (s.futures (target wait)).result) ∨
    (s.expired φ = true ∧ (s.fibers φ).result = -ETIME)

/-- The operation a fiber is suspended in has made the future `own`. -/
structure Suspended (s : Waiting) (φ : Nat) (wait : Wait) : Prop where
  own_lt : wait.own < s.next
  own_callback : (s.futures wait.own).callback = some φ
  own_purpose : (s.futures wait.own).purpose = wait.op.purpose
  target_lt : target wait < s.next
  state : (s.fibers φ).state = .SUSPENDED ∨ (s.fibers φ).state = .CANCELLED ∨
    ((s.fibers φ).state = .READY ∧ s.Woken φ wait)

structure Inv (s : Waiting) : Prop where
  /-- A wait future that is pending belongs to a fiber that waits. -/
  pending_wait : ∀ w t, w < s.next → (s.futures w).purpose = .wait t →
    (s.futures w).resolved = false →
    (s.futures w).callback.any fun φ => s.waits φ = some ⟨.await t, w⟩
  waiter : ∀ f w, f < s.next → w ∈ (s.futures f).waiters →
    w < s.next ∧ (s.futures w).purpose = .wait f
  /-- The waiters that are still to be resolved get the result of their
      target. -/
  todo : ∀ w r, (w, r) ∈ s.todo → w < s.next ∧ ∃ t < s.next,
    (s.futures w).purpose = .wait t ∧ (s.futures t).resolved = true ∧ (s.futures t).result = r
  suspended : ∀ φ wait, s.waits φ = some wait → s.Suspended φ wait
  running : ∀ φ, s.current = some φ → s.waits φ = none
  right : ∀ e ∈ s.ended, e.Right

/-! ## Section 5: What one function preserves -/

variable {wait : Wait} {φ : Nat}

/-- Waking up a fiber that waits, with the result it is to return. -/
theorem Suspended.invoke (h : s.Suspended φ wait) (callback : Option Nat) (result : Int)
    (hwake : callback = some φ → (s.fibers φ).state = .SUSPENDED → ((s.futures (target wait)).resolved = true ∧ result = (s.futures (target wait)).result) ∨ (s.expired φ = true ∧ result = -ETIME)) :
    (s.invoke callback result).Suspended φ wait := by
  cases callback with
  | none => exact h
  | some ψ =>
    by_cases hψ : ψ = φ
    · subst hψ
      -- the fiber the callback belongs to: woken up if it is suspended
      have hfiber : (s.fiber_resume_trampoline ψ result).fibers ψ =
          Fibers.sd_fiber_resume (s.loops (s.fibers ψ).event) result (s.fibers ψ) := by
        simp [fiber_resume_trampoline, set_fiber]
      refine ⟨h.own_lt, h.own_callback, h.own_purpose, h.target_lt, ?_⟩
      show ((s.fiber_resume_trampoline ψ result).fibers ψ).state = _ ∨
        ((s.fiber_resume_trampoline ψ result).fibers ψ).state = _ ∨
        ((s.fiber_resume_trampoline ψ result).fibers ψ).state = _ ∧ _
      by_cases hs : (s.fibers ψ).state = .SUSPENDED
      · have hready := sd_fiber_resume_of_suspended hs (s.loops (s.fibers ψ).event) result
        rw [← hfiber] at hready
        refine .inr (.inr ⟨hready.1, ?_⟩)
        rcases hwake rfl hs with hr | hr
        · exact .inl ⟨hr.1, hready.2.trans hr.2⟩
        · exact .inr ⟨hr.1, hready.2.trans hr.2⟩
      · rw [sd_fiber_resume_of_ne hs] at hfiber
        rw [hfiber]
        rcases h.state with hs' | hs' | ⟨hs', hw⟩
        · exact absurd hs' hs
        · exact .inr (.inl hs')
        · refine .inr (.inr ⟨hs', ?_⟩)
          rcases hw with hw | hw
          · exact .inl ⟨hw.1, (congrArg Fiber.result hfiber).trans hw.2⟩
          · exact .inr ⟨hw.1, (congrArg Fiber.result hfiber).trans hw.2⟩
    · -- another fiber
      have hfiber : (s.fiber_resume_trampoline ψ result).fibers φ = s.fibers φ := by
        simp [fiber_resume_trampoline, set_fiber, update_of_ne (Ne.symm hψ)]
      refine ⟨h.own_lt, h.own_callback, h.own_purpose, h.target_lt, ?_⟩
      have hstate := h.state
      unfold Woken at hstate ⊢
      rw [← hfiber] at hstate
      exact hstate

section
variable (callback : Option Nat) (result : Int)
include callback result

/-- A callback does nothing to the futures. -/
@[simp] theorem invoke_futures : (s.invoke callback result).futures = s.futures := by
  cases callback with
  | none => rfl
  | some φ => rfl

@[simp] theorem invoke_next : (s.invoke callback result).next = s.next := by
  cases callback with
  | none => rfl
  | some φ => rfl

@[simp] theorem invoke_waits : (s.invoke callback result).waits = s.waits := by
  cases callback with
  | none => rfl
  | some φ => rfl

@[simp] theorem invoke_todo : (s.invoke callback result).todo = s.todo := by
  cases callback with
  | none => rfl
  | some φ => rfl

@[simp] theorem invoke_current : (s.invoke callback result).current = s.current := by
  cases callback with
  | none => rfl
  | some φ => rfl

@[simp] theorem invoke_ended : (s.invoke callback result).ended = s.ended := by
  cases callback with
  | none => rfl
  | some φ => rfl

end

/-- The waits depend on the futures only through what is never taken back. -/
theorem Suspended.congr (h : s.Suspended φ wait) (hnext : s.next ≤ s'.next)
    (hfiber : s'.fibers φ = s.fibers φ) (hexpired : s.expired φ = true → s'.expired φ = true)
    (hcallback : (s'.futures wait.own).callback = (s.futures wait.own).callback)
    (hpurpose : ∀ f < s.next, (s'.futures f).purpose = (s.futures f).purpose)
    (hresolved : ∀ f < s.next, (s.futures f).resolved = true → (s'.futures f).resolved = true ∧ (s'.futures f).result = (s.futures f).result) :
    s'.Suspended φ wait := by
  have hlt := h.own_lt
  have htarget := h.target_lt
  refine ⟨by omega, hcallback.trans h.own_callback, (hpurpose _ hlt).trans h.own_purpose,
    by omega, ?_⟩
  rw [hfiber]
  rcases h.state with hs | hs | ⟨hs, hw⟩
  · exact .inl hs
  · exact .inr (.inl hs)
  · refine .inr (.inr ⟨hs, ?_⟩)
    unfold Woken
    rw [hfiber]
    rcases hw with hw | hw
    · have hr := hresolved _ htarget hw.1
      exact .inl ⟨hr.1, hw.2.trans hr.2.symm⟩
    · exact .inr ⟨hexpired hw.1, hw.2⟩

variable {f : Nat}

/-- `sd_future_resolve` on a future that is pending. -/
theorem sd_future_resolve_pending (h : (s.futures f).resolved = false) (result : Int)
    (order : List Nat) :
    s.sd_future_resolve f result order =
      { (s.set_future f { s.futures f with
            resolved := true, result := result, waiters := [] }).invoke
          (s.futures f).callback result with
        todo := order.map (fun w => (w, result)) ++ s.todo } := by
  unfold sd_future_resolve
  rw [if_neg (by simp [h])]
  simp [set_future]

variable {order : List Nat}

/-- **Resolving a future**: the invariant is kept if each fiber the callback
    wakes up waits for this future, or for one that has the same result, or
    the result is that of a timeout of it. -/
theorem Inv.sd_future_resolve (h : s.Inv) {result : Int}
    (horder : ∀ w ∈ order, w ∈ (s.futures f).waiters) (hf : f < s.next)
    (hwake : (s.futures f).resolved = false → ∀ φ wait, s.waits φ = some wait → (s.futures f).callback = some φ → (s.fibers φ).state = .SUSPENDED → target wait = f ∨ ((s.futures (target wait)).resolved = true ∧ result = (s.futures (target wait)).result) ∨ (s.expired φ = true ∧ result = -ETIME)) :
    (s.sd_future_resolve f result order).Inv := by
  cases hres : (s.futures f).resolved with
  | true =>
    rw [Waiting.sd_future_resolve, if_pos hres]
    exact h
  | false =>
    rw [sd_future_resolve_pending hres]
    -- what changes of the futures: this one is resolved
    have hother : ∀ g, g ≠ f → update s.futures f
        { s.futures f with resolved := true, result := result, waiters := [] } g = s.futures g :=
      fun g hg => update_of_ne hg _ _
    have hpurpose : ∀ g, (update s.futures f
        { s.futures f with resolved := true, result := result, waiters := [] } g).purpose =
          (s.futures g).purpose := by
      intro g
      by_cases hg : g = f
      · subst hg
        simp
      · rw [hother g hg]
    have hresolved : ∀ g, (s.futures g).resolved = true → g ≠ f := by
      intro g hg hgf
      rw [hgf, hres] at hg
      cases hg
    refine ⟨?_, ?_, ?_, ?_, ?_, ?_⟩
    · intro w t hw hp hpend
      simp only [invoke_futures, invoke_next, invoke_waits, set_future] at hw hp hpend ⊢
      have hwf : w ≠ f := by
        rintro rfl
        simp at hpend
      rw [hother w hwf] at hp hpend ⊢
      exact h.pending_wait w t hw hp hpend
    · intro g w hg hw
      simp only [invoke_futures, invoke_next, set_future] at hg hw ⊢
      by_cases hgf : g = f
      · subst hgf
        simp at hw
      · rw [hother g hgf] at hw
        rw [hpurpose]
        exact h.waiter g w hg hw
    · intro w r hw
      simp only [invoke_futures, invoke_next, set_future] at hw ⊢
      rcases mem_append.mp hw with hw | hw
      · obtain ⟨x, hx, he⟩ := mem_map.mp hw
        obtain ⟨rfl, rfl⟩ := Prod.mk.inj he
        have hwaiter := h.waiter f x hf (horder x hx)
        exact ⟨hwaiter.1, f, hf, (hpurpose x).trans hwaiter.2, by simp, by simp⟩
      · obtain ⟨hlt, t, htlt, hp, ht, hr⟩ := h.todo w r hw
        refine ⟨hlt, t, htlt, (hpurpose w).trans hp, ?_⟩
        rw [hother t (hresolved t ht)]
        exact ⟨ht, hr⟩
    · intro φ wait hwait
      simp only [invoke_waits] at hwait
      have hs := h.suspended φ wait hwait
      have hset : (s.set_future f { s.futures f with
          resolved := true, result := result, waiters := [] }).Suspended φ wait := by
        refine hs.congr (Nat.le_refl _) rfl id ?_ (fun g _ => hpurpose g) fun g _ hg => ?_
        · by_cases hg : wait.own = f
          · subst hg
            simp [set_future]
          · simp only [set_future]
            rw [hother _ hg]
        · simp only [set_future]
          rw [hother g (hresolved g hg)]
          exact ⟨hg, rfl⟩
      have hinvoke := hset.invoke (s.futures f).callback result fun hc hsusp => by
        rcases hwake hres φ wait hwait hc hsusp with ht | ht | ht
        · exact .inl (by simp [set_future, ht])
        · refine .inl ?_
          simp only [set_future]
          rw [hother _ (hresolved _ ht.1)]
          exact ht
        · exact .inr ht
      exact hinvoke.congr (Nat.le_refl _) rfl id rfl (fun _ _ => rfl) fun _ _ hg => ⟨hg, rfl⟩
    · intro φ hc
      simp only [invoke_current, invoke_waits] at hc ⊢
      exact h.running φ hc
    · intro e he
      simp only [invoke_ended] at he
      exact h.right e he

section
variable (h : s.Inv) (hc : s.current = some φ)
include h hc

/-- **Starting an operation**: the fiber that runs is suspended, with a new
    future, which the target has among its waiters if it is another one. -/
theorem Inv.suspend {op : Op} {futures : Nat → SdFuture}
    (hnew : futures s.next = ⟨op.purpose, false, 0, [], some φ⟩)
    (hold : ∀ g < s.next, ∃ ws, futures g = { s.futures g with waiters := ws } ∧ ∀ w ∈ ws, w ∈ (s.futures g).waiters ∨ (w = s.next ∧ op.purpose = .wait g))
    (ht : ∀ t, op = .await t → t < s.next) :
    ({ s with futures := futures, next := s.next + 1 }.sd_fiber_suspend φ ⟨op, s.next⟩).Inv := by
  have hidle : s.waits φ = none := h.running φ hc
  have hpurpose : ∀ g < s.next, (futures g).purpose = (s.futures g).purpose := by
    intro g hg
    obtain ⟨ws, he, -⟩ := hold g hg
    rw [he]
  refine ⟨?_, ?_, ?_, ?_, ?_, h.right⟩
  · intro w t hw hp hpend
    simp only [sd_fiber_suspend, set_fiber] at hw hp hpend ⊢
    by_cases hwn : w = s.next
    · subst hwn
      rw [hnew] at hp ⊢
      -- the future made just now: only `await` makes one for another future
      cases op with
      | await u =>
        obtain rfl : u = t := Purpose.wait.inj hp
        simp
      | io => cases hp
      | bus_call => cases hp
    · have hlt : w < s.next := by omega
      obtain ⟨ws, he, -⟩ := hold w hlt
      rw [he] at hp hpend ⊢
      have hany := h.pending_wait w t hlt hp hpend
      cases hcb : (s.futures w).callback with
      | none =>
        rw [hcb] at hany
        cases hany
      | some ψ =>
        rw [hcb] at hany
        have hψ : s.waits ψ = some ⟨.await t, w⟩ := by simpa using hany
        have hne : ψ ≠ φ := by
          rintro rfl
          rw [hidle] at hψ
          cases hψ
        simp [update_of_ne hne, hψ]
  · intro g w hg hw
    simp only [sd_fiber_suspend, set_fiber] at hg hw ⊢
    by_cases hgn : g = s.next
    · subst hgn
      rw [hnew] at hw
      cases hw
    · have hlt : g < s.next := by omega
      obtain ⟨ws, he, hws⟩ := hold g hlt
      rw [he] at hw
      rcases hws w hw with hwold | ⟨rfl, hwait⟩
      · have hw' := h.waiter g w hlt hwold
        exact ⟨by omega, (hpurpose w hw'.1).trans hw'.2⟩
      · exact ⟨by omega, by rw [hnew]; exact hwait⟩
  · intro w r hw
    obtain ⟨hlt, t, htlt, hp, hres, hr⟩ := h.todo w r hw
    simp only [sd_fiber_suspend, set_fiber]
    obtain ⟨ws, he, -⟩ := hold t htlt
    refine ⟨by omega, t, by omega, (hpurpose w hlt).trans hp, ?_⟩
    rw [he]
    exact ⟨hres, hr⟩
  · intro ψ wait hψ
    simp only [sd_fiber_suspend] at hψ
    by_cases hψφ : ψ = φ
    · subst hψφ
      -- the fiber that starts the operation
      rw [update_self] at hψ
      cases hψ
      refine ⟨Nat.lt_succ_self _, ?_, ?_, ?_, .inl ?_⟩
      · show (futures s.next).callback = some ψ
        rw [hnew]
      · show (futures s.next).purpose = op.purpose
        rw [hnew]
      · show target ⟨op, s.next⟩ < s.next + 1
        cases op with
        | await t =>
          have := ht t rfl
          show t < s.next + 1
          omega
        | io => exact Nat.lt_succ_self _
        | bus_call => exact Nat.lt_succ_self _
      · simp [sd_fiber_suspend, set_fiber, fiber_swap]
    · rw [update_of_ne hψφ] at hψ
      have hs := h.suspended ψ wait hψ
      refine hs.congr (Nat.le_succ _) ?_ ?_ ?_ hpurpose fun g hg hres => ?_
      · simp [sd_fiber_suspend, set_fiber, update_of_ne hψφ]
      · simp [sd_fiber_suspend, update_of_ne hψφ]
      · obtain ⟨ws, he, -⟩ := hold wait.own hs.own_lt
        simp only [sd_fiber_suspend, set_fiber]
        rw [he]
      · obtain ⟨ws, he, -⟩ := hold g hg
        simp only [sd_fiber_suspend, set_fiber]
        rw [he]
        exact ⟨hres, rfl⟩
  · intro ψ hψ
    cases hψ

/-- The three operations start like this. -/
theorem Inv.sd_fiber_await {t : Nat} (ht : t < s.next) : (s.sd_fiber_await φ t).Inv := by
  unfold Waiting.sd_fiber_await
  by_cases hres : (s.futures t).resolved
  · rw [if_pos hres]
    refine ⟨h.pending_wait, h.waiter, h.todo, fun φ wait hw => ?_, h.running, ?_⟩
    · exact (h.suspended φ wait hw).congr (Nat.le_refl _) rfl id rfl (fun _ _ => rfl)
        fun _ _ hg => ⟨hg, rfl⟩
    · intro e he
      rcases mem_cons.mp he with rfl | he
      · exact .inl ⟨hres, .inl rfl⟩
      · exact h.right e he
  · rw [if_neg hres]
    by_cases hfin : s.loops (s.fibers φ).event = .FINISHED
    · rw [if_pos hfin]
      refine ⟨h.pending_wait, h.waiter, h.todo, fun φ wait hw => ?_, h.running, ?_⟩
      · exact (h.suspended φ wait hw).congr (Nat.le_refl _) rfl id rfl (fun _ _ => rfl)
          fun _ _ hg => ⟨hg, rfl⟩
      · intro e he
        rcases mem_cons.mp he with rfl | he
        · exact .inr (.inl ⟨rfl, rfl⟩)
        · exact h.right e he
    · rw [if_neg hfin]
      refine h.suspend hc ?_ (fun g hg => ?_) fun u hu => ?_
      · have hne : s.next ≠ t := by omega
        simp [sd_future_new, set_future, update_of_ne hne, Op.purpose, hc]
      · have hne : g ≠ s.next := by omega
        by_cases hgt : g = t
        · subst hgt
          refine ⟨s.next :: (s.futures g).waiters, ?_, fun w hw => ?_⟩
          · simp [sd_future_new, set_future, update_of_ne hne]
          · rcases mem_cons.mp hw with rfl | hw
            · exact .inr ⟨rfl, rfl⟩
            · exact .inl hw
        · refine ⟨(s.futures g).waiters, ?_, fun w hw => .inl hw⟩
          simp [sd_future_new, set_future, update_of_ne hne, update_of_ne hgt]
      · obtain rfl := Op.await.inj hu
        exact ht

theorem Inv.operation (op : Op) (hop : ∀ t, op ≠ .await t) :
    ((s.sd_future_new op.purpose).sd_fiber_suspend φ ⟨op, s.next⟩).Inv := by
  refine h.suspend hc ?_ (fun g hg => ?_) fun t ht => absurd ht (hop t)
  · simp [set_future, hc]
  · have hne : g ≠ s.next := by omega
    exact ⟨(s.futures g).waiters, by simp [set_future, update_of_ne hne],
      fun w hw => .inl hw⟩

end

/-! ### The end of an operation -/

/-- The futures when the one made for an operation is cancelled. -/
def cancelled (futures : Nat → SdFuture) (f : Nat) : Nat → SdFuture :=
  if (futures f).resolved then futures
  else
    update (remove_waiter futures f) f { remove_waiter futures f f with
      resolved := true, result := -ECANCELED, waiters := [] }

/-- What cancelling a future leaves of a future. -/
theorem remove_waiter_futures (futures : Nat → SdFuture) (f g : Nat) :
    ∃ ws, (∀ w ∈ ws, w ∈ (futures g).waiters) ∧
      remove_waiter futures f g = { futures g with waiters := ws } := by
  unfold remove_waiter
  cases (futures f).purpose with
  | wait t =>
    by_cases hg : g = t
    · subst hg
      exact ⟨(futures g).waiters.filter (· ≠ f), fun w hw => (mem_filter.mp hw).1, by simp⟩
    · exact ⟨(futures g).waiters, fun w hw => hw, by simp [update_of_ne hg]⟩
  | other => exact ⟨(futures g).waiters, fun w hw => hw, rfl⟩
  | timeout => exact ⟨(futures g).waiters, fun w hw => hw, rfl⟩
  | io => exact ⟨(futures g).waiters, fun w hw => hw, rfl⟩
  | bus => exact ⟨(futures g).waiters, fun w hw => hw, rfl⟩

theorem cancelled_futures (futures : Nat → SdFuture) (f g : Nat) :
    (cancelled futures f g).purpose = (futures g).purpose ∧
      (cancelled futures f g).callback = (futures g).callback ∧
      (∀ w ∈ (cancelled futures f g).waiters, w ∈ (futures g).waiters) ∧
      ((futures g).resolved = true → (cancelled futures f g).resolved = true ∧
          (cancelled futures f g).result = (futures g).result) ∧
      (cancelled futures f f).resolved = true ∧
      (g ≠ f → (cancelled futures f g).resolved = (futures g).resolved) := by
  unfold cancelled
  by_cases hres : (futures f).resolved
  · rw [if_pos hres]
    exact ⟨rfl, rfl, fun w hw => hw, fun hg => ⟨hg, rfl⟩, hres, fun _ => rfl⟩
  · rw [if_neg hres]
    obtain ⟨ws, hws, he⟩ := remove_waiter_futures futures f g
    by_cases hg : g = f
    · subst hg
      rw [update_self, he]
      exact ⟨rfl, rfl, fun w hw => absurd hw (not_mem_nil), fun h => absurd h hres, rfl,
        fun h => absurd rfl h⟩
    · rw [update_of_ne hg, update_self, he]
      exact ⟨rfl, rfl, hws, fun h => ⟨h, rfl⟩, rfl, fun _ => rfl⟩

/-- Cancelling the future of an operation of a fiber that is not suspended
    does not wake it up. -/
theorem sd_future_cancel_eq (hc : (s.futures f).callback = some φ)
    (hs : (s.fibers φ).state ≠ .SUSPENDED) :
    s.sd_future_cancel f = { s with futures := cancelled s.futures f } := by
  unfold sd_future_cancel cancelled
  by_cases hres : (s.futures f).resolved
  · rw [if_pos hres, if_pos hres]
  · rw [if_neg hres, if_neg hres]
    obtain ⟨ws, -, he⟩ := remove_waiter_futures s.futures f f
    have hpend : (remove_waiter s.futures f f).resolved = false := by
      rw [he]
      simpa using hres
    have hcallback : (remove_waiter s.futures f f).callback = some φ := by
      rw [he]
      exact hc
    rw [sd_future_resolve_pending hpend]
    have hquiet : s.fibers φ = Fibers.sd_fiber_resume (s.loops (s.fibers φ).event) (-ECANCELED)
        (s.fibers φ) := (sd_fiber_resume_of_ne hs _ _).symm
    simp only [hcallback, invoke, fiber_resume_trampoline, Waiting.set_fiber, set_future, map_nil,
      nil_append]
    rw [← hquiet, update_eq_self]

/-- What a fiber that has been woken up returns from an operation is right. -/
theorem Suspended.right (h : s.Suspended φ wait) (hs : (s.fibers φ).state ≠ .SUSPENDED) :
    Ended.Right ⟨φ, wait.op, s.answer wait (fiber_swap_resumed (s.fibers φ)).1,
      (s.futures (target wait)).resolved, (s.futures (target wait)).result,
      (s.fibers φ).state = .CANCELLED, s.expired φ⟩ := by
  -- the two errors of the fiber are handed on by each operation
  have herr : ∀ r : Int, r < 0 → (s.answer wait r = .value r) ∨
      ((s.futures (target wait)).resolved = true ∧ s.answer wait r = .reply) := by
    intro r hr
    unfold answer target
    cases wait.op with
    | await t => exact .inl rfl
    | io => exact .inl (if_pos hr)
    | bus_call =>
      cases hres : (s.futures wait.own).resolved with
      | true => exact .inr ⟨rfl, rfl⟩
      | false => exact .inl rfl
  rcases h.state with hs' | hs' | ⟨hs', hw⟩
  · exact absurd hs' hs
  · simp only [fiber_swap_resumed, hs']
    rcases herr (-ECANCELED) (by decide) with ha | ⟨hres, ha⟩
    · exact .inr (.inl ⟨ha, by simp⟩)
    · exact .inl ⟨hres, .inr (.inr ha)⟩
  · have hready : FiberState.READY ≠ .CANCELLED := by decide
    simp only [fiber_swap_resumed, hs']
    rcases hw with ⟨hres, hr⟩ | ⟨hexp, hr⟩
    · refine .inl ⟨hres, ?_⟩
      rw [hr]
      unfold answer
      cases hop : wait.op with
      | await t => exact .inl rfl
      | io =>
        by_cases hneg : (s.futures (target wait)).result < 0
        · exact .inl (if_pos hneg)
        · exact .inr (.inl ⟨if_neg hneg, Int.not_lt.mp hneg⟩)
      | bus_call =>
        have hown : target wait = wait.own := by simp [target, hop]
        rw [hown] at hres
        exact .inr (.inr (if_pos hres))
    · rw [hr]
      rcases herr (-ETIME) (by decide) with ha | ⟨hres, ha⟩
      · exact .inr (.inr ⟨ha, hexp⟩)
      · exact .inl ⟨hres, .inr (.inr ha)⟩

/-- What `resumed` comes to where the fiber is not suspended. -/
theorem resumed_eq (hc : (s.futures wait.own).callback = some φ)
    (hs : (s.fibers φ).state ≠ .SUSPENDED) :
    s.resumed φ wait =
      { s with
        futures := cancelled s.futures wait.own
        fibers := update s.fibers φ (fiber_swap_resumed (s.fibers φ)).2
        waits := update s.waits φ none
        ended := ⟨φ, wait.op, s.answer wait (fiber_swap_resumed (s.fibers φ)).1,
          (s.futures (target wait)).resolved, (s.futures (target wait)).result,
          (s.fibers φ).state = .CANCELLED, s.expired φ⟩ :: s.ended } := by
  have hstate : ((fiber_swap_resumed (s.fibers φ)).2).state = (s.fibers φ).state := by
    unfold fiber_swap_resumed
    by_cases hcan : (s.fibers φ).state = .CANCELLED
    · rw [if_pos hcan]
    · rw [if_neg hcan]
  have hcancel := sd_future_cancel_eq (s := (s.set_fiber φ (fiber_swap_resumed (s.fibers φ)).2).record
    φ wait (s.answer wait (fiber_swap_resumed (s.fibers φ)).1)
      (decide ((s.fibers φ).state = .CANCELLED))) (f := wait.own) hc (by
        simpa [record, set_fiber, hstate] using hs)
  have hanswer : (s.set_fiber φ (fiber_swap_resumed (s.fibers φ)).2).answer wait
      (fiber_swap_resumed (s.fibers φ)).1 = s.answer wait (fiber_swap_resumed (s.fibers φ)).1 := rfl
  unfold resumed
  dsimp only
  rw [hanswer, hcancel]
  rfl

section
variable (h : s.Inv)
include h

/-- **The end of an operation**: what it returns is recorded, and the future it
    has made is gone. -/
theorem Inv.resumed (hw : s.waits φ = some wait) (hs : (s.fibers φ).state ≠ .SUSPENDED) :
    ({ s with current := some φ }.resumed φ wait).Inv := by
  have hφ := h.suspended φ wait hw
  rw [resumed_eq (s := { s with current := some φ }) hφ.own_callback hs]
  -- of the futures, only the one made for the operation has changed
  have hcancel := fun g => cancelled_futures s.futures wait.own g
  refine ⟨?_, ?_, ?_, ?_, ?_, ?_⟩
  · intro w t hlt hp hpend
    have hwo : w ≠ wait.own := by
      rintro rfl
      rw [(hcancel wait.own).2.2.2.2.1] at hpend
      cases hpend
    obtain ⟨hp', hcb, -, -, -, hres⟩ := hcancel w
    rw [hcb]
    have hany := h.pending_wait w t hlt (hp' ▸ hp) ((hres hwo) ▸ hpend)
    cases hc : (s.futures w).callback with
    | none =>
      rw [hc] at hany
      cases hany
    | some ψ =>
      rw [hc] at hany
      have hψ : s.waits ψ = some ⟨.await t, w⟩ := by simpa using hany
      have hne : ψ ≠ φ := by
        rintro rfl
        rw [hw] at hψ
        exact hwo (congrArg Wait.own (some.inj hψ)).symm
      simp [update_of_ne hne, hψ]
  · intro g w hlt hmem
    have hold := h.waiter g w hlt ((hcancel g).2.2.1 w hmem)
    exact ⟨hold.1, (hcancel w).1.trans hold.2⟩
  · intro w r hmem
    obtain ⟨hlt, t, htlt, hp, hres, hr⟩ := h.todo w r hmem
    have ht := (hcancel t).2.2.2.1 hres
    exact ⟨hlt, t, htlt, (hcancel w).1.trans hp, ht.1, ht.2.trans hr⟩
  · intro ψ wait' hψ
    have hne : ψ ≠ φ := by
      rintro rfl
      simp at hψ
    have hψ' : s.waits ψ = some wait' := by
      simpa [update_of_ne hne] using hψ
    refine (h.suspended ψ wait' hψ').congr (Nat.le_refl _) (update_of_ne hne _ _) id
      (hcancel _).2.1 (fun g _ => (hcancel g).1) fun g _ hg => (hcancel g).2.2.2.1 hg
  · intro ψ hψ
    obtain rfl : φ = ψ := some.inj hψ
    simp
  · intro e he
    rcases mem_cons.mp he with rfl | he
    · exact hφ.right hs
    · exact h.right e he

/-- A fiber that waits may be changed as long as it is still suspended, or
    cancelled, or keeps what it has been woken up with. -/
theorem Inv.set_fiber {fiber : Fiber}
    (hf : ∀ wait, s.waits φ = some wait → (fiber.state = (s.fibers φ).state ∧ fiber.result = (s.fibers φ).result) ∨ fiber.state = .CANCELLED) :
    (s.set_fiber φ fiber).Inv := by
  refine ⟨h.pending_wait, h.waiter, h.todo, fun ψ wait hw => ?_, h.running, h.right⟩
  have hs := h.suspended ψ wait hw
  by_cases hψ : ψ = φ
  · subst hψ
    refine ⟨hs.own_lt, hs.own_callback, hs.own_purpose, hs.target_lt, ?_⟩
    simp only [Waiting.set_fiber, update_self, Woken]
    rcases hf wait hw with ⟨hstate, hresult⟩ | hcan
    · rw [hstate, hresult]
      exact hs.state
    · exact .inr (.inl hcan)
  · exact hs.congr (Nat.le_refl _) (update_of_ne hψ _ _) id rfl (fun _ _ => rfl)
      fun _ _ hg => ⟨hg, rfl⟩

/-! ## Section 6: Every step -/

/-- The condition: while a fiber is suspended in an operation, its trampoline
    is called for the future of that operation, for the one it waits for and
    for a timeout that expires, and for no other. -/
def Undisturbed (s : Waiting) : Label → Prop
  | .resolve f result _ =>
    (s.futures f).resolved = false → ∀ φ wait, s.waits φ = some wait →
      (s.futures f).callback = some φ → (s.fibers φ).state = .SUSPENDED →
        f = wait.own ∨ f = target wait ∨ ((s.futures f).purpose = .timeout ∧ result = -ETIME)
  | _ => True

/-- A waiter that is resolved with its target. -/
theorem Inv.resolve_waiter {w : Nat} {result : Int} {todo : List (Nat × Int)}
    (htodo : s.todo = (w, result) :: todo) (horder : order.Perm (s.futures w).waiters) :
    (({ s with todo := todo } : Waiting).sd_future_resolve w result order).Inv := by
  obtain ⟨hlt, t, htlt, hp, hres, hr⟩ := h.todo w result (by simp [htodo])
  have h' : ({ s with todo := todo } : Waiting).Inv :=
    ⟨h.pending_wait, h.waiter, fun w r hw => h.todo w r (by rw [htodo]; exact .tail _ hw),
      fun φ wait hw => (h.suspended φ wait hw).congr (Nat.le_refl _) rfl id rfl (fun _ _ => rfl)
        fun _ _ hg => ⟨hg, rfl⟩, h.running, h.right⟩
  refine h'.sd_future_resolve (fun x hx => horder.mem_iff.mp hx) hlt fun hpend φ wait hw hc _ => ?_
  -- a wait future that is pending is the one its fiber waits with
  have hany := h.pending_wait w t hlt hp hpend
  rw [show (s.futures w).callback = some φ from hc] at hany
  have hwait : s.waits φ = some ⟨.await t, w⟩ := by simpa using hany
  rw [show s.waits φ = some wait from hw] at hwait
  cases hwait
  exact .inr (.inl ⟨hres, hr.symm⟩)

/-- **A future that is resolved from outside**, under the condition. -/
theorem Inv.resolve {result : Int} (hf : f < s.next) (hr : resolvable (s.futures f) result = true)
    (horder : order.Perm (s.futures f).waiters) (hok : s.Undisturbed (.resolve f result order)) :
    ((s.note_expired f result).sd_future_resolve f result order).Inv := by
  have hnote : (s.note_expired f result).Inv ∧
      (s.note_expired f result).futures = s.futures ∧
      (s.note_expired f result).next = s.next ∧
      (s.note_expired f result).waits = s.waits ∧
      (s.note_expired f result).fibers = s.fibers ∧
      (∀ φ, (s.futures f).resolved = false → (s.futures f).callback = some φ →
        (s.futures f).purpose = .timeout → result = -ETIME →
          (s.note_expired f result).expired φ = true) := by
    unfold note_expired
    cases hc : (s.futures f).callback with
    | none => exact ⟨h, rfl, rfl, rfl, rfl, fun φ _ hφ => by cases hφ⟩
    | some ψ =>
      dsimp only
      split
      · refine ⟨⟨h.pending_wait, h.waiter, h.todo, fun φ wait hw => ?_, h.running, h.right⟩,
          rfl, rfl, rfl, rfl, fun φ _ hφ _ _ => ?_⟩
        · refine (h.suspended φ wait hw).congr (Nat.le_refl _) rfl (fun he => ?_) rfl
            (fun _ _ => rfl) fun _ _ hg => ⟨hg, rfl⟩
          by_cases hφ : φ = ψ
          · subst hφ
            simp
          · simpa [update_of_ne hφ] using he
        · cases hφ
          simp
      next hnot =>
        refine ⟨h, rfl, rfl, rfl, rfl, fun φ hpend _ hp he => ?_⟩
        exact absurd ⟨hp, he, by simp [hpend]⟩ hnot
  obtain ⟨hinv, hfut, hnext, hwaits, hfibers, hexp⟩ := hnote
  refine hinv.sd_future_resolve (fun w hw => ?_) (by rw [hnext]; exact hf) ?_
  · rw [hfut]
    exact horder.mem_iff.mp hw
  · rw [hfut, hwaits, hfibers]
    intro hpend φ wait hw hc hsusp
    rcases hok hpend φ wait hw hc hsusp with rfl | rfl | ⟨hp, he⟩
    · -- the future of the operation: it is resolved from outside, so it is no wait future
      have hpurpose := (h.suspended φ wait hw).own_purpose
      refine .inl ?_
      unfold target
      cases hop : wait.op with
      | await t =>
        rw [hop] at hpurpose
        rw [resolvable, hpurpose] at hr
        cases hr
      | io => rfl
      | bus_call => rfl
    · exact .inl rfl
    · exact .inr (.inr ⟨hexp φ hpend hc hp he, he⟩)

/-- A fiber that the event loop runs: it is entered, or goes on behind the
    operation it was suspended in. -/
theorem Inv.run {exit : Bool} (hst : s.run φ exit = some s') : s'.Inv := by
  unfold Waiting.run at hst
  split at hst
  · cases hst
  · -- the source is disabled first
    have hinv : (s.set_fiber φ ((s.fibers φ).dispatched exit)).Inv :=
      h.set_fiber fun wait _ => .inl ⟨by simp, by simp⟩
    have hstate : ((s.set_fiber φ ((s.fibers φ).dispatched exit)).fibers φ).state =
        (s.fibers φ).state := by simp [Waiting.set_fiber]
    split at hst
    · next _ _ _ hidle =>
      cases hst
      refine ⟨hinv.pending_wait, hinv.waiter, hinv.todo, fun ψ wait hw => ?_, fun ψ hψ => ?_,
        hinv.right⟩
      · exact (hinv.suspended ψ wait hw).congr (Nat.le_refl _) rfl id rfl (fun _ _ => rfl)
          fun _ _ hg => ⟨hg, rfl⟩
      · obtain rfl : φ = ψ := some.inj hψ
        exact hidle
    · next _ _ wait hs hw =>
      cases hst
      exact hinv.resumed hw (by rw [hstate, hs]; decide)
    · next _ _ wait hs hw =>
      cases hst
      exact hinv.resumed hw (by rw [hstate, hs]; decide)
    · cases hst

/-- A fiber that is cancelled where it waits. -/
theorem Inv.cancel (φ : Nat) :
    (s.set_fiber φ (fiber_cancel (s.loops (s.fibers φ).event) (s.fibers φ)).2).Inv := by
  refine h.set_fiber fun wait hw => ?_
  rcases fiber_cancel_cases (s.loops (s.fibers φ).event) (s.fibers φ) with
    ⟨-, he⟩ | ⟨hs, he⟩ | ⟨-, ⟨-, he⟩ | ⟨armed, -, he⟩⟩
  · exact .inl ⟨by rw [he], by rw [he]⟩
  · -- a fiber that waits has been entered
    rcases (h.suspended φ wait hw).state with hs' | hs' | ⟨hs', -⟩
    · rw [hs] at hs'
      cases hs'
    · rw [hs] at hs'
      cases hs'
    · rw [hs] at hs'
      cases hs'
  · exact .inl ⟨by rw [he], by rw [he]⟩
  · exact .inr (by rw [he])

/-- The steps that leave the fibers and the futures there are alone. -/
theorem Inv.sd_future_new {purpose : Purpose} (hp : ∀ t, purpose ≠ .wait t) :
    (s.sd_future_new purpose).Inv := by
  have hold : ∀ g < s.next, update s.futures s.next
      ⟨purpose, false, 0, [], s.current⟩ g = s.futures g :=
    fun g hg => update_of_ne (by omega) _ _
  refine ⟨?_, ?_, ?_, ?_, h.running, h.right⟩
  · intro w t hw hpw hpend
    simp only [Waiting.sd_future_new, set_future] at hw hpw hpend ⊢
    by_cases hwn : w = s.next
    · subst hwn
      rw [update_self] at hpw
      exact absurd hpw (hp t)
    · have hlt : w < s.next := by omega
      rw [hold w hlt] at hpw hpend ⊢
      exact h.pending_wait w t hlt hpw hpend
  · intro g w hg hw
    simp only [Waiting.sd_future_new, set_future] at hg hw ⊢
    by_cases hgn : g = s.next
    · subst hgn
      rw [update_self] at hw
      cases hw
    · have hlt : g < s.next := by omega
      rw [hold g hlt] at hw
      have hw' := h.waiter g w hlt hw
      rw [hold w hw'.1]
      exact ⟨by omega, hw'.2⟩
  · intro w r hw
    obtain ⟨hlt, t, htlt, hpw, hres, hr⟩ := h.todo w r hw
    simp only [Waiting.sd_future_new, set_future]
    refine ⟨by omega, t, by omega, ?_⟩
    rw [hold w hlt, hold t htlt]
    exact ⟨hpw, hres, hr⟩
  · intro φ wait hw
    have hs := h.suspended φ wait hw
    refine hs.congr (Nat.le_succ _) rfl id ?_ (fun g hg => ?_) fun g hg hres => ?_
    · simp only [Waiting.sd_future_new, set_future]
      rw [hold _ hs.own_lt]
    · simp only [Waiting.sd_future_new, set_future]
      rw [hold g hg]
    · simp only [Waiting.sd_future_new, set_future]
      rw [hold g hg]
      exact ⟨hres, rfl⟩

theorem Inv.set_callback (hp : (s.futures f).purpose = .other) (callback : Option Nat) :
    (s.set_future f { s.futures f with callback := callback }).Inv := by
  have hsame : ∀ g, ∃ c, update s.futures f { s.futures f with callback := callback } g =
      { s.futures g with callback := c } ∧ (g ≠ f → c = (s.futures g).callback) := by
    intro g
    by_cases hg : g = f
    · subst hg
      exact ⟨callback, by simp, fun hne => absurd rfl hne⟩
    · exact ⟨(s.futures g).callback, by simp [update_of_ne hg], fun _ => rfl⟩
  refine ⟨?_, ?_, ?_, ?_, h.running, h.right⟩
  · intro w t hw hpw hpend
    simp only [set_future] at hw hpw hpend ⊢
    obtain ⟨c, he, hc⟩ := hsame w
    rw [he] at hpw hpend ⊢
    have hne : w ≠ f := by
      rintro rfl
      rw [hp] at hpw
      cases hpw
    rw [hc hne]
    exact h.pending_wait w t hw hpw hpend
  · intro g w hg hw
    simp only [set_future] at hg hw ⊢
    obtain ⟨c, he, -⟩ := hsame g
    obtain ⟨c', he', -⟩ := hsame w
    rw [he] at hw
    rw [he']
    exact h.waiter g w hg hw
  · intro w r hw
    obtain ⟨hlt, t, htlt, hpw, hres, hr⟩ := h.todo w r hw
    obtain ⟨c, he, -⟩ := hsame w
    obtain ⟨c', he', -⟩ := hsame t
    simp only [set_future]
    refine ⟨hlt, t, htlt, ?_⟩
    rw [he, he']
    exact ⟨hpw, hres, hr⟩
  · intro φ wait hw
    have hs := h.suspended φ wait hw
    have hne : wait.own ≠ f := by
      rintro rfl
      have hpurpose := hs.own_purpose
      rw [hp] at hpurpose
      cases hop : wait.op with
      | await t =>
        rw [hop] at hpurpose
        cases hpurpose
      | io =>
        rw [hop] at hpurpose
        cases hpurpose
      | bus_call =>
        rw [hop] at hpurpose
        cases hpurpose
    refine hs.congr (Nat.le_refl _) rfl id ?_ (fun g _ => ?_) fun g _ hres => ?_
    · obtain ⟨c, he, hc⟩ := hsame wait.own
      simp only [set_future]
      rw [he, hc hne]
    · obtain ⟨c, he, -⟩ := hsame g
      simp only [set_future]
      rw [he]
    · obtain ⟨c, he, -⟩ := hsame g
      simp only [set_future]
      rw [he]
      exact ⟨hres, rfl⟩

/-- **Step lemma**: every step that meets the condition keeps the invariant. -/
theorem Inv.step {label : Label} (hok : s.Undisturbed label) (hst : s.step label = some s') :
    s'.Inv := by
  cases htodo : s.todo with
  | cons head todo =>
    cases label with
    | resolve_waiter order =>
      simp only [Waiting.step, htodo] at hst
      split at hst
      · next horder =>
        cases hst
        exact h.resolve_waiter htodo horder
      · cases hst
    | _ =>
      simp only [Waiting.step, htodo] at hst
      cases hst
  | nil =>
    cases label with
    | resolve_waiter order =>
      simp only [Waiting.step, htodo] at hst
      cases hst
    | create timeout =>
      simp only [Waiting.step, htodo] at hst
      split at hst
      · cases hst
      · cases hst
        refine h.sd_future_new fun t => ?_
        cases timeout with
        | true => simp
        | false => simp
    | set_callback f callback =>
      simp only [Waiting.step, htodo] at hst
      split at hst
      · next hf =>
        cases hst
        exact h.set_callback hf.2 callback
      · cases hst
    | resolve f result order =>
      simp only [Waiting.step, htodo] at hst
      split at hst
      · next hf =>
        cases hst
        exact h.resolve hf.1 hf.2.1 hf.2.2 hok
      · cases hst
    | await t =>
      simp only [Waiting.step, htodo] at hst
      split at hst
      · next φ hc =>
        split at hst
        · next ht =>
          cases hst
          exact h.sd_fiber_await hc ht.1
        · cases hst
      · cases hst
    | io =>
      simp only [Waiting.step, htodo] at hst
      obtain ⟨φ, hc, rfl⟩ := map_eq_some_iff.mp hst
      exact h.operation hc .io fun t => by simp
    | bus_call =>
      simp only [Waiting.step, htodo] at hst
      obtain ⟨φ, hc, rfl⟩ := map_eq_some_iff.mp hst
      exact h.operation hc .bus_call fun t => by simp
    | run φ exit =>
      simp only [Waiting.step, htodo] at hst
      split at hst
      · exact h.run hst
      · cases hst
    | cancel φ =>
      simp only [Waiting.step, htodo] at hst
      split at hst
      · cases hst
      · cases hst
        exact h.cancel φ
    | finish result =>
      simp only [Waiting.step, htodo] at hst
      obtain ⟨φ, hc, rfl⟩ := map_eq_some_iff.mp hst
      -- a fiber that runs is suspended in nothing
      have hinv : (s.set_fiber φ (fiber_complete result (s.fibers φ))).Inv :=
        h.set_fiber fun wait hw => by
          rw [h.running φ hc] at hw
          cases hw
      refine ⟨hinv.pending_wait, hinv.waiter, hinv.todo, fun ψ wait hw => ?_, fun ψ hψ => ?_,
        hinv.right⟩
      · exact (hinv.suspended ψ wait hw).congr (Nat.le_refl _) rfl id rfl (fun _ _ => rfl)
          fun _ _ hg => ⟨hg, rfl⟩
      · cases hψ
    | loop event state =>
      simp only [Waiting.step, htodo] at hst
      split at hst
      · cases hst
      · cases hst
        exact ⟨h.pending_wait, h.waiter, fun w r hw => absurd hw not_mem_nil, fun ψ wait hw =>
          (h.suspended ψ wait hw).congr (Nat.le_refl _) rfl id rfl (fun _ _ => rfl)
            fun _ _ hg => ⟨hg, rfl⟩, h.running, h.right⟩

end

theorem Inv.initial (h : s.initial) : s.Inv := by
  obtain ⟨hfibers, hnext, hcurrent, hwaits, htodo, hended⟩ := h
  refine ⟨fun w t hw => ?_, fun f w hf => ?_, fun w r hw => ?_, fun φ wait hw => ?_,
    fun φ hφ => ?_, fun e he => ?_⟩
  · omega
  · omega
  · rw [htodo] at hw
    cases hw
  · rw [hwaits φ] at hw
    cases hw
  · rw [hcurrent] at hφ
    cases hφ
  · rw [hended] at he
    cases he

/-! ## Section 7: Waiting is right where nothing else wakes the fiber up -/

/-- **The operations that wait**: in every run in which a fiber that is
    suspended in an operation is not woken up by another of its futures, the
    operation returns when its target has been resolved, with the result of
    that, or with the cancellation or a timeout of the fiber. -/
theorem await_correct (h : Reachable (waiting.restrict Undisturbed) s) :
    ∀ e ∈ s.ended, e.Right := by
  have hinv : ∀ s, Reachable (waiting.restrict Undisturbed) s → s.Inv := by
    intro s hs
    induction hs with
    | init hi => exact Inv.initial hi
    | step _ hst ih => exact ih.step hst.1 hst.2
  exact (hinv s h).right

/-- Fibers that have not been started, and no futures. -/
def start : Waiting where
  futures := fun _ => ⟨.other, false, 0, [], none⟩
  next := 0
  fibers := fun _ => sd_fiber_new 0 false
  loops := fun _ => .INITIAL
  current := none
  waits := fun _ => none
  todo := []
  expired := fun _ => false
  ended := []

theorem start_initial : start.initial :=
  ⟨fun _ => rfl, rfl, rfl, fun _ => rfl, rfl, rfl⟩

/-- A fiber waits for the future it has made, the future is resolved, its
    waiter is, and the fiber goes on. -/
def waits_one : Waiting :=
  (steps step [.run 0 false, .create false, .await 0] start).getD start

def resolved_one : Waiting := (waits_one.step (.resolve 0 7 [1])).getD start

def awaited_one : Waiting :=
  (steps step [.resolve_waiter [], .run 0 false] resolved_one).getD start

theorem await_correct_one :
    awaited_one.ended = [⟨0, .await 0, .value 7, true, 7, false, false⟩] ∧
      ∀ e ∈ awaited_one.ended, e.Right := by
  have h0 : Reachable ((System.of_step initial step).restrict Undisturbed) start :=
    .init start_initial
  have hbegun : steps step [.run 0 false, .create false, .await 0] start = some waits_one := rfl
  have h1 := h0.steps_restrict (by simp [Undisturbed]) hbegun
  have hwait : ∀ φ wait, waits_one.waits φ = some wait → target wait = 0 := by
    intro φ wait hw
    by_cases hφ : φ = 0
    · subst hφ
      rw [← some.inj hw]
      rfl
    · have hnone : waits_one.waits φ = none := update_of_ne hφ _ _
      rw [hnone] at hw
      cases hw
  have hok : waits_one.Undisturbed (.resolve 0 7 [1]) :=
    fun _ φ wait hw _ _ => .inr (.inl (hwait φ wait hw).symm)
  have hstep : waits_one.step (.resolve 0 7 [1]) = some resolved_one := rfl
  have hended : steps step [.resolve_waiter [], .run 0 false] resolved_one = some awaited_one := rfl
  have h2 := (Reachable.step h1 ⟨hok, hstep⟩).steps_restrict (by simp [Undisturbed]) hended
  exact ⟨rfl, await_correct h2⟩

/-- The operations that wait do not look at what they have been woken up for:
    the fiber makes two futures and waits for the second; the first is
    resolved with 5, and this is what the fiber gets, with the second pending. -/
theorem await_returns_early : ¬ ∀ s, Reachable waiting s → ∀ e ∈ s.ended, e.Right := by
  intro h
  have hrun : steps step [.run 0 false, .create false, .create false, .await 1,
      .resolve 0 5 [], .run 0 false] start = some ((steps step [.run 0 false, .create false,
        .create false, .await 1, .resolve 0 5 [], .run 0 false] start).getD start) := rfl
  have he := h _ (Reachable.of_steps start_initial hrun)
    ⟨0, .await 1, .value 5, false, 0, false, false⟩ (by decide)
  rcases he with ⟨hres, -⟩ | ⟨hanswer, -⟩ | ⟨hanswer, -⟩
  · cases hres
  · revert hanswer
    decide
  · revert hanswer
    decide

end Waiting

end SdCompat.Fibers
