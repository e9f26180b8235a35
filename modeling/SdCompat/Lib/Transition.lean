import Mathlib.Logic.Basic

/-! # Transition systems

    A labelled transition system, its runs and its reachable states, and the
    invariant rules the rest of the development uses:

    * `Reachable.invariant`: initial states satisfy it, steps preserve it;
    * `System.restrict`: the same system with a condition on its steps, for
      properties that hold along the runs which stay clear of some branch;
    * `System.of_step`: the system of a step function, with the states its
      runs lead to.
-/

namespace Transition

open Option

variable {σ : Type*} {α : Type*}

/-- A labelled transition system. -/
structure System (σ : Type*) (α : Type*) where
  /-- The initial states. -/
  init : σ → Prop
  /-- The steps, each with its label. -/
  step : σ → α → σ → Prop

/-- The states some run from an initial state ends in. -/
inductive Reachable (S : System σ α) : σ → Prop where
  | init {s : σ} : S.init s → Reachable S s
  | step {s s' : σ} {a : α} : Reachable S s → S.step s a s' → Reachable S s'

/-- `Run S s as s'`: the labels `as` lead from `s` to `s'`. -/
inductive Run (S : System σ α) : σ → List α → σ → Prop where
  | nil (s : σ) : Run S s [] s
  | cons {s s' s'' : σ} {a : α} {as : List α} :
      S.step s a s' → Run S s' as s'' → Run S s (a :: as) s''

variable {S : System σ α} {s s' : σ}

/-- One step is a run. -/
theorem Run.single {a : α} (h : S.step s a s') : Run S s [a] s' :=
  .cons h (.nil _)

variable {as : List α}

/-- Runs compose. -/
theorem Run.append {s'' : σ} {bs : List α} (h₁ : Run S s as s') (h₂ : Run S s' bs s'') :
    Run S s (as ++ bs) s'' := by
  induction h₁ with
  | nil => exact h₂
  | cons hst _ ih => exact .cons hst (ih h₂)

variable {inv : σ → Prop}

/-- **Invariant rule**: what holds initially and is kept by every step
    holds in every reachable state. -/
theorem Reachable.invariant (hinit : ∀ s, S.init s → inv s)
    (hstep : ∀ s a s', inv s → S.step s a s' → inv s') : ∀ {s}, Reachable S s → inv s := by
  intro s hs
  induction hs with
  | init h => exact hinit _ h
  | step _ hst ih => exact hstep _ _ _ ih hst

/-- The invariant rule along a run. -/
theorem Run.invariant (hstep : ∀ s a s', inv s → S.step s a s' → inv s') :
    ∀ {s as s'}, Run S s as s' → inv s → inv s' := by
  intro s as s' hr
  induction hr with
  | nil => exact id
  | cons hst _ ih => exact fun h => ih (hstep _ _ _ h hst)

/-- A run from a reachable state ends in a reachable state. -/
theorem Run.reachable (hr : Run S s as s') (hs : Reachable S s) : Reachable S s' := by
  induction hr with
  | nil => exact hs
  | cons hst _ ih => exact ih (.step hs hst)

/-! ### Runs whose steps all meet a condition -/

/-- The system with only those steps that meet `ok`, a condition on the
    state before the step and the label. -/
def System.restrict (S : System σ α) (ok : σ → α → Prop) : System σ α where
  init := S.init
  step := fun s a s' => ok s a ∧ S.step s a s'

variable {ok : σ → α → Prop}

theorem Reachable.of_restrict (h : Reachable (S.restrict ok) s) : Reachable S s := by
  induction h with
  | init hi => exact .init hi
  | step _ hst ih => exact .step ih hst.2

/-! ### Systems given by a step function -/

/-- The system of a partial step function. -/
def System.of_step (init : σ → Prop) (step : σ → α → Option σ) : System σ α where
  init := init
  step := fun s a s' => step s a = some s'

/-- The state a list of labels leads to. -/
def steps (step : σ → α → Option σ) : List α → σ → Option σ
  | [], s => some s
  | a :: as, s => (step s a).bind (steps step as)

variable {init : σ → Prop} {step : σ → α → Option σ}

/-- Where a list of labels leads, there is a run. -/
theorem Run.of_steps (h : steps step as s = some s') : Run (System.of_step init step) s as s' := by
  induction as generalizing s with
  | nil =>
    obtain rfl : s = s' := some.inj h
    exact .nil s
  | cons a as ih =>
    obtain ⟨s1, hs1, h⟩ := bind_eq_some_iff.mp h
    exact .cons hs1 (ih h)

/-- From an initial state it leads to a reachable one. -/
theorem Reachable.of_steps (hs : init s) (h : steps step as s = some s') :
    Reachable (System.of_step init step) s' :=
  (Run.of_steps h).reachable (.init hs)

/-- Labels that meet a condition in every state keep a restricted system
    going. -/
theorem Reachable.steps_restrict (hs : Reachable ((System.of_step init step).restrict ok) s)
    (hok : ∀ a ∈ as, ∀ s, ok s a) (h : steps step as s = some s') :
    Reachable ((System.of_step init step).restrict ok) s' := by
  induction as generalizing s with
  | nil =>
    obtain rfl : s = s' := some.inj h
    exact hs
  | cons a as ih =>
    obtain ⟨s1, hs1, h⟩ := bind_eq_some_iff.mp h
    exact ih (.step hs ⟨hok a (.head _) s, hs1⟩) (fun b hb => hok b (.tail _ hb)) h

/-- A run whose steps are checked stays in the restricted system. -/
theorem Reachable.steps_checked {check : σ → α → Bool} (hcheck : ∀ s a, check s a = true → ok s a)
    (hs : Reachable ((System.of_step init step).restrict ok) s)
    (h : steps (fun s a => if check s a then step s a else none) as s = some s') :
    Reachable ((System.of_step init step).restrict ok) s' := by
  induction as generalizing s with
  | nil =>
    obtain rfl : s = s' := some.inj h
    exact hs
  | cons a as ih =>
    obtain ⟨s1, hs1, h⟩ := bind_eq_some_iff.mp h
    dsimp only at hs1
    split at hs1
    · next hc => exact ih (.step hs ⟨hcheck s a hc, hs1⟩) h
    · cases hs1

end Transition
