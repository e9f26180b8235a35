import SdCompat.Basic.Common
import SdCompat.Lib.Transition

/-! # Reading and writing on fibers (sd-future/fiber-io.c)

    `sd_fiber_read` and `sd_fiber_write` as the fibers of one thread make
    them, any number at a time and on any descriptors. A step is what a fiber
    does up to where it suspends, or from there on, since other fibers run
    only in between. What the system calls return is left open.

    A descriptor stands for the open file it refers to, which is where the
    flag is kept.
-/

open Transition

namespace SdCompat.FiberIo

open Function Option Bool

/-! ## Section 1: Data -/

/-- Which of the two operations it is. -/
inductive FiberIOFunc where
  | read_callback | write_callback
  deriving DecidableEq, Repr

/-- What `fiber_io_operation` has on the stack. -/
structure Operation where
  fd : Nat
  func : FiberIOFunc
  /-- The descriptor to reset on the way out, if there is one. -/
  reset_fd : Option Nat
  deriving DecidableEq, Repr

/-- A system call, and whether `O_NONBLOCK` was set when it was made. -/
structure SystemCall where
  fd : Nat
  func : FiberIOFunc
  nonblock : Bool
  deriving DecidableEq, Repr

/-- The descriptors' flags, the operations the fibers are suspended in, and as a
    record the system calls they have made, the last one first. -/
structure Thread where
  o_nonblock : Nat → Bool
  operations : Nat → Option Operation
  calls : List SystemCall

/-- What the first part of an operation meets: the flags cannot be read or set;
    the first call is through, with a result or an error; it would block and no
    future can be had; or the fiber suspends. -/
inductive Entry where
  | refused | through | no_future | suspends
  deriving DecidableEq, Repr

inductive Label where
  | enter (fiber fd : Nat) (func : FiberIOFunc) (e : Entry)
  /-- `sd_fiber_suspend` returns, with an error or not. -/
  | resume (fiber : Nat) (error : Bool)
  deriving DecidableEq, Repr

/-! ## Section 2: Functions -/

/-- `fd_nonblock`: whether the flag was changed, and the flags after. -/
def fd_nonblock (o_nonblock : Nat → Bool) (fd : Nat) (nonblock : Bool) : Bool × (Nat → Bool) :=
  if o_nonblock fd = nonblock then (false, o_nonblock)
  else (true, update o_nonblock fd nonblock)

/-- `nonblock_resetp` -/
def nonblock_resetp (o_nonblock : Nat → Bool) : Option Nat → (Nat → Bool)
  | none => o_nonblock
  | some fd => (fd_nonblock o_nonblock fd false).2

namespace Thread

/-- `func (fd, args)` -/
def call (t : Thread) (fd : Nat) (func : FiberIOFunc) : Thread :=
  { t with calls := ⟨fd, func, t.o_nonblock fd⟩ :: t.calls }

/-- The return from `fiber_io_operation`, with its cleanups. -/
def finish (t : Thread) (fiber : Nat) (reset_fd : Option Nat) : Thread :=
  { t with
    o_nonblock := nonblock_resetp t.o_nonblock reset_fd
    operations := update t.operations fiber none }

/-- `fiber_io_operation` up to where the fiber suspends. -/
def fiber_io_operation (t : Thread) (fiber fd : Nat) (func : FiberIOFunc) (e : Entry) : Thread :=
  if e = .refused then t
  else
    let (changed, o_nonblock) := fd_nonblock t.o_nonblock fd true
    let reset_fd := if changed then some fd else none
    let t := { t with o_nonblock := o_nonblock }.call fd func
    if e = .suspends then
      { t with operations := update t.operations fiber (some ⟨fd, func, reset_fd⟩) }
    else t.finish fiber reset_fd

/-- And from where it goes on. -/
def fiber_io_operation_resumed (t : Thread) (fiber : Nat) (op : Operation) (error : Bool) :
    Thread :=
  (if error then t else t.call op.fd op.func).finish fiber op.reset_fd

/-- A fiber that is not in an operation may begin one, and one that is may be
    resumed. -/
def step (t : Thread) : Label → Option Thread
  | .enter fiber fd func e =>
    match t.operations fiber with
    | none => some (t.fiber_io_operation fiber fd func e)
    | some _ => none
  | .resume fiber error =>
    (t.operations fiber).map fun op => t.fiber_io_operation_resumed fiber op error

/-- Some operation on the descriptor is in progress. -/
def Busy (t : Thread) (fd : Nat) : Prop :=
  ∃ fiber op, t.operations fiber = some op ∧ op.fd = fd

/-- Some operation in progress is to reset the descriptor: the one that has
    switched it. -/
def Switched (t : Thread) (fd : Nat) : Prop :=
  ∃ fiber op, t.operations fiber = some op ∧ op.reset_fd = some fd

end Thread

/-- The descriptors as they are before any operation. -/
def start (before : Nat → Bool) : Thread where
  o_nonblock := before
  operations := fun _ => none
  calls := []

/-- Any interleaving of operations, from given flags. -/
def thread (before : Nat → Bool) : System Thread Label :=
  System.of_step (· = start before) Thread.step

/-- Every call so far was made with the flag set, and where nothing is in
    progress the flag is what it was. -/
def Nonblocking (before : Nat → Bool) (t : Thread) : Prop :=
  (∀ c ∈ t.calls, c.nonblock = true) ∧ ∀ fd, ¬ t.Busy fd → t.o_nonblock fd = before fd

/-- A fiber that goes on to its second call does so while the operation that has
    switched the descriptor is still in progress, unless nothing had to be
    switched. -/
def Nested (before : Nat → Bool) (t : Thread) : Label → Prop
  | .enter .. => True
  | .resume fiber error =>
    error = false → ∀ op, t.operations fiber = some op → before op.fd = true ∨ t.Switched op.fd

/-! ## Section 3: What an operation does to the flags -/

/-- What is known of the flags in every run: one operation at most has switched
    a descriptor, which was not set before, and a descriptor is set exactly
    when it was before or is switched. -/
structure Flags (before : Nat → Bool) (t : Thread) : Prop where
  own : ∀ {fiber op fd}, t.operations fiber = some op → op.reset_fd = some fd →
    op.fd = fd ∧ before fd = false
  one : ∀ {fiber fiber' op op' fd}, t.operations fiber = some op → op.reset_fd = some fd →
    t.operations fiber' = some op' → op'.reset_fd = some fd → fiber = fiber'
  flag : ∀ fd, t.o_nonblock fd = true ↔ before fd = true ∨ t.Switched fd

theorem Flags.start (before : Nat → Bool) : Flags before (start before) where
  own h := by cases h
  one h := by cases h
  flag fd := by
    constructor
    · exact fun h => .inl h
    · rintro (h | ⟨_, _, h, _⟩)
      · exact h
      · cases h

section flags
variable {before : Nat → Bool} {t : Thread} {fiber fd : Nat} {func : FiberIOFunc}

@[simp] theorem operations_call : (t.call fd func).operations = t.operations := rfl

@[simp] theorem o_nonblock_call : (t.call fd func).o_nonblock = t.o_nonblock := rfl

@[simp] theorem calls_finish {reset_fd : Option Nat} :
    (t.finish fiber reset_fd).calls = t.calls := rfl

/-- A call changes nothing the flags depend on. -/
theorem Flags.record (h : Flags before t) (calls : List SystemCall) :
    Flags before { t with calls := calls } where
  own := h.own
  one := h.one
  flag := h.flag

/-- What is to be reset, with one more operation. -/
theorem switched_update (hfiber : t.operations fiber = none) {op : Operation} (fd' : Nat) :
    (∃ φ x, update t.operations fiber (some op) φ = some x ∧ x.reset_fd = some fd') ↔
      op.reset_fd = some fd' ∨ t.Switched fd' := by
  constructor
  · rintro ⟨φ, x, hx, hreset⟩
    by_cases hφ : φ = fiber
    · subst hφ
      rw [update_self] at hx
      exact .inl (some.inj hx ▸ hreset)
    · exact .inr ⟨φ, x, (update_of_ne hφ ..).symm.trans hx, hreset⟩
  · rintro (hreset | ⟨φ, x, hx, hreset⟩)
    · exact ⟨fiber, op, update_self .., hreset⟩
    · have hφ : φ ≠ fiber := by
        rintro rfl
        rw [hfiber] at hx
        cases hx
      exact ⟨φ, x, (update_of_ne hφ ..).trans hx, hreset⟩

/-- An operation that suspends, on a descriptor that was not set. -/
theorem Flags.suspend_switched (h : Flags before t) (hfiber : t.operations fiber = none)
    (hfd : t.o_nonblock fd = false) :
    Flags before { t with
      o_nonblock := update t.o_nonblock fd true
      operations := update t.operations fiber (some ⟨fd, func, some fd⟩) } := by
  have hnone : ¬ (before fd = true ∨ t.Switched fd) := by
    rw [← h.flag fd, hfd]
    exact false_ne_true
  have hnew : ∀ {φ op fd'}, update t.operations fiber (some ⟨fd, func, some fd⟩) φ = some op →
      op.reset_fd = some fd' → (φ = fiber ∧ op.fd = fd ∧ fd' = fd) ∨ (φ ≠ fiber ∧ t.operations φ = some op) := by
    intro φ op fd' hop hreset
    by_cases hφ : φ = fiber
    · subst hφ
      rw [update_self] at hop
      cases hop
      exact .inl ⟨rfl, rfl, (some.inj hreset).symm⟩
    · rw [update_of_ne hφ] at hop
      exact .inr ⟨hφ, hop⟩
  refine ⟨?_, ?_, ?_⟩
  · intro φ op fd' hop hreset
    rcases hnew hop hreset with ⟨rfl, hfd', rfl⟩ | ⟨_, hop⟩
    · exact ⟨hfd', eq_false_iff.mpr fun hb => hnone (.inl hb)⟩
    · exact h.own hop hreset
  · intro φ φ' op op' fd' hop hreset hop' hreset'
    rcases hnew hop hreset with ⟨hφ, _, hfd'⟩ | ⟨_, hold⟩
    · rcases hnew hop' hreset' with ⟨hφ', _, _⟩ | ⟨_, hold'⟩
      · exact hφ.trans hφ'.symm
      · exact absurd (.inr ⟨φ', op', hold', hreset'.trans (congrArg some hfd')⟩) hnone
    · rcases hnew hop' hreset' with ⟨_, _, hfd'⟩ | ⟨_, hold'⟩
      · exact absurd (.inr ⟨φ, op, hold, hreset.trans (congrArg some hfd')⟩) hnone
      · exact h.one hold hreset hold' hreset'
  · intro fd'
    refine Iff.trans ?_ (or_congr Iff.rfl (switched_update hfiber fd')).symm
    show update t.o_nonblock fd true fd' = true ↔ _
    by_cases hfd' : fd' = fd
    · simp [hfd']
    · rw [update_of_ne hfd', h.flag fd']
      simp [Ne.symm hfd']

/-- An operation that suspends with nothing to reset. -/
theorem Flags.suspend (h : Flags before t) (hfiber : t.operations fiber = none) :
    Flags before { t with
      operations := update t.operations fiber (some ⟨fd, func, none⟩) } := by
  have hnew : ∀ {φ op fd'}, update t.operations fiber (some ⟨fd, func, none⟩) φ = some op →
      op.reset_fd = some fd' → t.operations φ = some op := by
    intro φ op fd' hop hreset
    by_cases hφ : φ = fiber
    · subst hφ
      rw [update_self] at hop
      cases hop
      cases hreset
    · rwa [update_of_ne hφ] at hop
  refine ⟨fun hop hreset => h.own (hnew hop hreset) hreset,
    fun hop hreset hop' hreset' => h.one (hnew hop hreset) hreset (hnew hop' hreset') hreset', ?_⟩
  intro fd'
  refine Iff.trans ?_ (or_congr Iff.rfl (switched_update hfiber fd')).symm
  rw [h.flag fd']
  simp

/-- The return of an operation that is in progress. -/
theorem Flags.finish (h : Flags before t) {op : Operation} (hop : t.operations fiber = some op) :
    Flags before (t.finish fiber op.reset_fd) := by
  have hold : ∀ {φ op'}, update t.operations fiber none φ = some op' →
      φ ≠ fiber ∧ t.operations φ = some op' := by
    intro φ op' hop'
    by_cases hφ : φ = fiber
    · subst hφ
      rw [update_self] at hop'
      cases hop'
    · rw [update_of_ne hφ] at hop'
      exact ⟨hφ, hop'⟩
  refine ⟨fun hop' hreset => h.own (hold hop').2 hreset,
    fun hop1 hreset1 hop2 hreset2 => h.one (hold hop1).2 hreset1 (hold hop2).2 hreset2, ?_⟩
  intro fd'
  -- the flag goes with the operation that has switched it
  have hrest : op.reset_fd ≠ some fd' → ((t.finish fiber op.reset_fd).Switched fd' ↔ t.Switched fd') := by
    intro hne
    constructor
    · rintro ⟨φ, op', hop', hreset⟩
      exact ⟨φ, op', (hold hop').2, hreset⟩
    · rintro ⟨φ, op', hop', hreset⟩
      have hφ : φ ≠ fiber := by
        rintro rfl
        obtain rfl := some.inj (hop.symm.trans hop')
        exact hne hreset
      exact ⟨φ, op', (update_of_ne hφ ..).trans hop', hreset⟩
  cases hr : op.reset_fd with
  | none =>
    have := hrest (by rw [hr]; exact (some_ne_none fd').symm)
    rw [hr] at this
    rw [this]
    exact h.flag fd'
  | some fd =>
    have hset : t.o_nonblock fd = true := (h.flag fd).mpr (.inr ⟨fiber, op, hop, hr⟩)
    have hflag : (t.finish fiber (some fd)).o_nonblock = update t.o_nonblock fd false := by
      show (fd_nonblock t.o_nonblock fd false).2 = _
      rw [fd_nonblock, if_neg (by rw [hset]; exact Bool.noConfusion)]
    rw [hflag]
    by_cases hfd' : fd' = fd
    · subst hfd'
      rw [update_self]
      refine iff_of_false Bool.false_ne_true ?_
      rintro (hb | ⟨φ, op', hop', hreset⟩)
      · rw [(h.own hop hr).2] at hb
        cases hb
      · obtain ⟨hφ, hop'⟩ := hold hop'
        exact hφ (h.one hop' hreset hop hr)
    · have := hrest (by rw [hr]; exact fun he => hfd' (some.inj he).symm)
      rw [hr] at this
      rw [update_of_ne hfd', this]
      exact h.flag fd'

end flags

/-! ## Section 4: Steps and runs -/

section steps
variable {before : Nat → Bool} {t t' : Thread} {fiber fd : Nat} {func : FiberIOFunc} {e : Entry}

/-- What becomes of the flags when an operation has switched the descriptor and
    returns at once. -/
theorem nonblock_resetp_fd_nonblock (o_nonblock : Nat → Bool) (fd : Nat) :
    nonblock_resetp (fd_nonblock o_nonblock fd true).2
      (if (fd_nonblock o_nonblock fd true).1 then some fd else none) = o_nonblock := by
  cases hfd : o_nonblock fd with
  | true => simp [fd_nonblock, nonblock_resetp, hfd]
  | false =>
    simp only [fd_nonblock, nonblock_resetp, hfd, false_eq_true, if_false, if_true,
      update_self, update_idem]
    rw [if_neg (by decide), ← hfd, update_eq_self]

/-- How an operation begins: it is refused, it returns with its first call made,
    or it suspends, with something to reset or not. -/
theorem enter_cases (h : t.step (.enter fiber fd func e) = some t') :
    t.operations fiber = none ∧
      (t' = t ∨ t' = { t with calls := ⟨fd, func, true⟩ :: t.calls } ∨
        (t.o_nonblock fd = true ∧ t' = { t with
          operations := update t.operations fiber (some ⟨fd, func, none⟩)
          calls := ⟨fd, func, true⟩ :: t.calls }) ∨
        (t.o_nonblock fd = false ∧ t' = { t with
          o_nonblock := update t.o_nonblock fd true
          operations := update t.operations fiber (some ⟨fd, func, some fd⟩)
          calls := ⟨fd, func, true⟩ :: t.calls })) := by
  simp only [Thread.step] at h
  split at h
  · next hfiber =>
    cases h
    refine ⟨hfiber, ?_⟩
    have hset : (fd_nonblock t.o_nonblock fd true).2 fd = true := by
      unfold fd_nonblock
      split
      · assumption
      · exact update_self ..
    -- an operation that does not suspend leaves the flags as they were
    have hreturned : e ≠ .refused → e ≠ .suspends →
        t.fiber_io_operation fiber fd func e =
          { t with calls := ⟨fd, func, true⟩ :: t.calls } := by
      intro hrefused hsuspends
      simp only [Thread.fiber_io_operation, if_neg hrefused, if_neg hsuspends, Thread.finish,
        Thread.call, nonblock_resetp_fd_nonblock, hset]
      rw [← hfiber, update_eq_self]
    cases e with
    | refused => exact .inl rfl
    | through => exact .inr (.inl (hreturned (by decide) (by decide)))
    | no_future => exact .inr (.inl (hreturned (by decide) (by decide)))
    | suspends =>
      cases hfd : t.o_nonblock fd with
      | true =>
        simp [Thread.fiber_io_operation, Thread.call, fd_nonblock, hfd]
      | false =>
        simp [Thread.fiber_io_operation, Thread.call, fd_nonblock, hfd]
  · cases h

/-- How one goes on and returns. -/
theorem resume_cases {error : Bool} (h : t.step (.resume fiber error) = some t') :
    ∃ op, t.operations fiber = some op ∧
      t' = (if error then t else t.call op.fd op.func).finish fiber op.reset_fd := by
  obtain ⟨op, hop, rfl⟩ := map_eq_some_iff.mp h
  exact ⟨op, hop, rfl⟩

/-- Every step keeps what is known of the flags. -/
theorem Flags.step {a : Label} (h : Flags before t) (hst : t.step a = some t') :
    Flags before t' := by
  cases a with
  | enter fiber fd func e =>
    obtain ⟨hfiber, rfl | rfl | ⟨_, rfl⟩ | ⟨hfd, rfl⟩⟩ := enter_cases hst
    · exact h
    · exact h.record _
    · exact (h.suspend hfiber).record _
    · exact (h.suspend_switched hfiber hfd).record _
  | resume fiber error =>
    obtain ⟨op, hop, rfl⟩ := resume_cases hst
    cases error with
    | true => exact h.finish hop
    | false => exact (h.record _).finish hop

/-- **One step** makes its calls with the flag set exactly when it is nested. -/
theorem calls_step {a : Label} (h : Flags before t) (hst : t.step a = some t') :
    (∀ c ∈ t'.calls, c.nonblock = true) ↔ Nested before t a ∧ ∀ c ∈ t.calls, c.nonblock = true := by
  cases a with
  | enter fiber fd func e =>
    have hcalls : t'.calls = t.calls ∨ t'.calls = ⟨fd, func, true⟩ :: t.calls := by
      obtain ⟨_, rfl | rfl | ⟨_, rfl⟩ | ⟨_, rfl⟩⟩ := enter_cases hst
      · exact .inl rfl
      · exact .inr rfl
      · exact .inr rfl
      · exact .inr rfl
    rcases hcalls with hcalls | hcalls
    · simp [hcalls, Nested]
    · simp [hcalls, Nested]
  | resume fiber error =>
    obtain ⟨op, hop, rfl⟩ := resume_cases hst
    cases error with
    | true => simp [Nested]
    | false =>
      have hflag := h.flag op.fd
      simp only [false_eq_true, if_false, calls_finish, Thread.call, List.forall_mem_cons, Nested,
        forall_true_left, hop, some.injEq, forall_eq', hflag]

end steps

section runs
variable {before : Nat → Bool} {s t : Thread} {as : List Label}

/-- **A run** makes its calls with the flag set exactly when each step is nested. -/
theorem calls_run (hr : Run (thread before) s as t) (h : Flags before s) :
    (∀ c ∈ t.calls, c.nonblock = true) ↔
      Run ((thread before).restrict (Nested before)) s as t ∧ ∀ c ∈ s.calls, c.nonblock = true := by
  induction hr with
  | nil s => exact ⟨fun hc => ⟨.nil s, hc⟩, fun hc => hc.2⟩
  | cons hst _ ih =>
    rw [ih (h.step hst), calls_step h hst]
    constructor
    · rintro ⟨hrest, hnested, hc⟩
      exact ⟨.cons ⟨hnested, hst⟩ hrest, hc⟩
    · rintro ⟨hrun, hc⟩
      cases hrun with
      | cons hst' hrest =>
        -- a label leads to one state only
        obtain rfl := some.inj (hst'.2.symm.trans hst)
        exact ⟨hrest, hst'.1, hc⟩

/-- The flags along a run. -/
theorem flags_run (hr : Run (thread before) (start before) as t) : Flags before t :=
  hr.invariant (fun _ _ _ h hst => h.step hst) (Flags.start before)

/-- Where nothing is in progress the flag is what it was. -/
theorem Flags.restored (h : Flags before t) {fd : Nat} (hidle : ¬ t.Busy fd) :
    t.o_nonblock fd = before fd := by
  have hswitched : ¬ t.Switched fd := by
    rintro ⟨fiber, op, hop, hreset⟩
    exact hidle ⟨fiber, op, hop, (h.own hop hreset).1⟩
  have hflag := h.flag fd
  rw [or_iff_left hswitched] at hflag
  exact eq_iff_iff.mpr hflag

/-- **Reading and writing do not block** in exactly the runs in which every
    operation that goes on does so while the one that has switched its
    descriptor is still in progress. The flags are restored in all of them. -/
theorem nonblocking_iff_nested (hr : Run (thread before) (start before) as t) :
    Nonblocking before t ↔
      Run ((thread before).restrict (Nested before)) (start before) as t := by
  have hcalls := calls_run hr (Flags.start before)
  constructor
  · intro h
    exact (hcalls.mp h.1).1
  · intro h
    exact ⟨hcalls.mpr ⟨h, fun c hc => by cases hc⟩, fun fd => (flags_run hr).restored⟩

/-- Two fibers read one descriptor, and the second returns first. -/
theorem nonblocking_two :
    ∃ t, t.calls.length = 4 ∧ Nonblocking (fun _ => false) t := by
  obtain ⟨t, hrun, hlength, hnested⟩ : ∃ t,
      Run (thread fun _ => false) (start fun _ => false)
        [.enter 1 0 .read_callback .suspends, .enter 2 0 .read_callback .suspends,
          .resume 2 false, .resume 1 false] t ∧ t.calls.length = 4 ∧
      Run ((thread fun _ => false).restrict (Nested fun _ => false)) (start fun _ => false)
        [.enter 1 0 .read_callback .suspends, .enter 2 0 .read_callback .suspends,
          .resume 2 false, .resume 1 false] t := by
    refine ⟨_, .cons rfl (.cons rfl (.cons rfl (.cons rfl (.nil _)))), rfl,
      .cons ⟨trivial, rfl⟩ (.cons ⟨trivial, rfl⟩ (.cons ⟨?_, rfl⟩ (.cons ⟨?_, rfl⟩ (.nil _))))⟩
    · rintro _ op hop
      cases hop
      exact .inr ⟨1, _, rfl, rfl⟩
    · rintro _ op hop
      cases hop
      exact .inr ⟨1, _, rfl, rfl⟩
  exact ⟨t, hlength, (nonblocking_iff_nested hrun).mpr hnested⟩

/-- Two fibers read one descriptor, and the first returns first: the second makes
    its last call with the flag reset. -/
theorem blocking_overlap :
    ¬ ∀ (before : Nat → Bool) (as : List Label) (t : Thread),
      Run (thread before) (start before) as t → Nonblocking before t := by
  intro h
  have hrun : Run (thread fun _ => false) (start fun _ => false) [.enter 1 0 .read_callback .suspends,
        .enter 2 0 .read_callback .suspends, .resume 1 false, .resume 2 false] _ :=
    .cons rfl (.cons rfl (.cons rfl (.cons rfl (.nil _))))
  have hcalls := (h _ _ _ hrun).1 ⟨0, .read_callback, false⟩ (.head _)
  cases hcalls

end runs

end SdCompat.FiberIo
