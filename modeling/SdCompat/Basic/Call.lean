import SdCompat.Basic.Common

/-! # Calls that change a state

    A C function that works on an object: it takes the object and leaves it
    changed, whether it succeeds or not. An error ends the calling function,
    but what was changed before it stays changed.
-/

universe u

namespace SdCompat

/-- A call on an object of type `σ`. -/
def Call (σ : Type u) (α : Type u) : Type u := σ → Outcome α × σ

namespace Call

variable {σ α β : Type u}

def bind (x : Call σ α) (f : α → Call σ β) : Call σ β := fun s =>
  match x s with
  | (.ok a, s) => f a s
  | (.err e, s) => (.err e, s)
  | (.abort, s) => (.abort, s)

instance : Monad (Call σ) where
  pure a := fun s => (.ok a, s)
  bind := bind

/-- Return an error. -/
def fail (e : Errno) : Call σ α := fun s => (.err e, s)

/-- A failed assertion. -/
def abort : Call σ α := fun s => (.abort, s)

/-- Read the object. -/
def get : Call σ σ := fun s => (.ok s, s)

/-- Change the object. -/
def modify (f : σ → σ) : Call σ PUnit := fun s => (.ok ⟨⟩, f s)

/-- Return an error unless the condition holds: `assert_return`, and checks of
    the same form. -/
def check (b : Bool) (e : Errno) : Call σ PUnit := if b then pure ⟨⟩ else fail e

/-- A function that does not look at the object. -/
def lift (x : Outcome α) : Call σ α := fun s => (x, s)

@[simp] theorem pure_run (a : α) (s : σ) : (pure a : Call σ α) s = (.ok a, s) := rfl

@[simp] theorem fail_run (e : Errno) (s : σ) : (fail e : Call σ α) s = (.err e, s) := rfl

@[simp] theorem abort_run (s : σ) : (abort : Call σ α) s = (.abort, s) := rfl

@[simp] theorem get_run (s : σ) : (get : Call σ σ) s = (.ok s, s) := rfl

@[simp] theorem modify_run (f : σ → σ) (s : σ) : modify f s = (.ok ⟨⟩, f s) := rfl

@[simp] theorem lift_run (x : Outcome α) (s : σ) : (lift x : Call σ α) s = (x, s) := rfl

theorem bind_run (x : Call σ α) (f : α → Call σ β) (s : σ) :
    (x >>= f) s =
      match x s with
      | (.ok a, s) => f a s
      | (.err e, s) => (.err e, s)
      | (.abort, s) => (.abort, s) := rfl

variable {x : Call σ α}

variable {s s' : σ}

/-- A call that succeeds hands on to the next. -/
theorem bind_run_ok {a : α} (h : x s = (.ok a, s')) (f : α → Call σ β) : (x >>= f) s = f a s' := by
  rw [bind_run, h]

variable {f : α → Call σ β}

/-- Both parts of a sequence that succeeds. -/
theorem of_bind_ok {b : β} (h : (x >>= f) s = (.ok b, s')) :
    ∃ a s₁, x s = (.ok a, s₁) ∧ f a s₁ = (.ok b, s') := by
  rw [bind_run] at h
  match hx : x s with
  | (.ok a, s₁) =>
    rw [hx] at h
    exact ⟨a, s₁, rfl, h⟩
  | (.err e, s₁) =>
    rw [hx] at h
    cases h
  | (.abort, s₁) =>
    rw [hx] at h
    cases h

@[simp] theorem pure_bind_run (a : α) (f : α → Call σ β) (s : σ) :
    ((pure a : Call σ α) >>= f) s = f a s := rfl

@[simp] theorem get_bind_run (f : σ → Call σ β) (s : σ) : (get >>= f) s = f s s := rfl

/-- The value of a function that does not look at the object. -/
theorem lift_bind_run_ok {x : Outcome α} {a : α} (h : x = .ok a) (f : α → Call σ β) (s : σ) :
    (lift x >>= f) s = f a s := by
  subst h
  rfl

@[simp] theorem modify_bind_run (g : σ → σ) (f : PUnit → Call σ β) (s : σ) :
    (modify g >>= f) s = f ⟨⟩ (g s) := rfl

@[simp] theorem fail_bind_run (e : Errno) (f : α → Call σ β) (s : σ) :
    ((fail e : Call σ α) >>= f) s = (.err e, s) := rfl

variable {b : Bool}

/-- A check that passes does nothing. -/
theorem check_bind_run_true (h : b = true) (e : Errno) (f : PUnit → Call σ β) (s : σ) :
    (check b e >>= f) s = f ⟨⟩ s := by
  subst h
  rfl

/-- A check that fails ends the call. -/
theorem check_bind_run_false (h : b = false) (e : Errno) (f : PUnit → Call σ β) (s : σ) :
    (check b e >>= f) s = (.err e, s) := by
  subst h
  rfl

/-- Where a call goes on behind a check, it has passed. -/
theorem of_check_bind_ok {e : Errno} {f : PUnit → Call σ β} {a : β}
    (h : (check b e >>= f) s = (.ok a, s')) : b = true ∧ f ⟨⟩ s = (.ok a, s') := by
  cases hb : b with
  | true =>
    subst hb
    exact ⟨rfl, h⟩
  | false =>
    subst hb
    cases h

/-- Parts that leave the object alone make a sequence that does. -/
theorem bind_state_same (hx : (x s).2 = s) (hf : ∀ a, (f a s).2 = s) : ((x >>= f) s).2 = s := by
  rw [bind_run]
  match hr : x s with
  | (.ok a, s') =>
    rw [hr] at hx
    obtain rfl : s' = s := hx
    exact hf a
  | (.err e, s') =>
    rw [hr] at hx
    exact hx
  | (.abort, s') =>
    rw [hr] at hx
    exact hx

theorem check_state (b : Bool) (e : Errno) (s : σ) : ((check b e : Call σ PUnit) s).2 = s := by
  cases b with
  | true => rfl
  | false => rfl

/-! ## Errors

    `Errs x s P`: if the call returns an error, it leaves the object in a state
    that satisfies `P`. One rule for each way to put calls together. -/

def Errs (x : Call σ α) (s : σ) (P : σ → Prop) : Prop :=
  ∀ e s', x s = (.err e, s') → P s'

section errs
variable {P : σ → Prop} {s : σ}

theorem errs_pure (a : α) : Errs (pure a : Call σ α) s P := by
  intro e s' h
  cases h

theorem errs_modify (f : σ → σ) : Errs (modify f) s P := by
  intro e s' h
  cases h

theorem errs_fail (e : Errno) (h : P s) : Errs (fail e : Call σ α) s P := by
  intro e' s' h'
  cases h'
  exact h

theorem errs_abort : Errs (abort : Call σ α) s P := by
  intro e s' h
  cases h

/-- A sequence leaves `P` behind if its first part does, and its second part
    does from wherever the first ends. -/
theorem errs_bind {x : Call σ α} {f : α → Call σ β} (hx : Errs x s P)
    (hf : ∀ a s', x s = (.ok a, s') → Errs (f a) s' P) : Errs (x >>= f) s P := by
  intro e s' h
  rw [bind_run] at h
  match hr : x s with
  | (.ok a, s1) =>
    rw [hr] at h
    exact hf a s1 hr e s' h
  | (.err e1, s1) =>
    rw [hr] at h
    cases h
    exact hx _ _ hr
  | (.abort, s1) =>
    rw [hr] at h
    cases h

theorem errs_get_bind {f : σ → Call σ β} (hf : Errs (f s) s P) : Errs (get >>= f) s P :=
  hf

variable {f : PUnit → Call σ β}

theorem errs_modify_bind {g : σ → σ} (hf : Errs (f ⟨⟩) (g s) P) : Errs (modify g >>= f) s P :=
  hf

/-- A check may fail if `P` holds already. -/
theorem errs_check_bind {b : Bool} {e : Errno} (h : P s) (hf : b = true → Errs (f ⟨⟩) s P) :
    Errs (check b e >>= f) s P := by
  cases hb : b with
  | true => exact hf hb
  | false =>
    intro e' s' h'
    cases h'
    exact h

end errs

/-! ## How calls end

    `Ends x s Q E A`: where the call succeeds its result and the object satisfy
    `Q`, where it returns an error the object satisfies `E`, and it aborts only
    if `A`. -/

def Ends (x : Call σ α) (s : σ) (Q : α → σ → Prop) (E : σ → Prop) (A : Prop) : Prop :=
  match x s with
  | (.ok a, s') => Q a s'
  | (.err _, s') => E s'
  | (.abort, _) => A

section ends
variable {Q : α → σ → Prop} {R : β → σ → Prop} {E : σ → Prop} {A : Prop} {s : σ}

/-- A sequence: where the first part ends is where the second starts. -/
theorem ends_bind {x : Call σ β} {f : β → Call σ α} (hx : Ends x s R E A)
    (hf : ∀ b s', R b s' → Ends (f b) s' Q E A) : Ends (x >>= f) s Q E A := by
  unfold Ends at hx ⊢
  rw [bind_run]
  split at hx
  · exact hf _ _ hx
  · exact hx
  · exact hx

/-- Less may be asked for. -/
theorem ends_mono {x : Call σ α} {Q' : α → σ → Prop} {E' : σ → Prop} {A' : Prop}
    (hx : Ends x s Q E A) (hQ : ∀ a s', Q a s' → Q' a s') (hE : ∀ s', E s' → E' s')
    (hA : A → A') : Ends x s Q' E' A' := by
  unfold Ends at hx ⊢
  split at hx
  · exact hQ _ _ hx
  · exact hE _ hx
  · exact hA hx

end ends

/-! ## Calls that do not abort

    `Ensures x s Q E`: the call does not abort; where it succeeds its result
    and the object satisfy `Q`, where it returns an error the object satisfies
    `E`. -/

def Ensures (x : Call σ α) (s : σ) (Q : α → σ → Prop) (E : σ → Prop) : Prop :=
  match x s with
  | (.ok a, s') => Q a s'
  | (.err _, s') => E s'
  | (.abort, _) => False

section ensures
variable {Q : α → σ → Prop} {R : β → σ → Prop} {E : σ → Prop} {s : σ}

theorem ensures_pure {a : α} (h : Q a s) : Ensures (pure a : Call σ α) s Q E := h

variable {e : Errno}

theorem ensures_fail (h : E s) : Ensures (fail e : Call σ α) s Q E := h

variable {x : Call σ α}

theorem ensures_iff_ends : Ensures x s Q E ↔ Ends x s Q E False := Iff.rfl

theorem ensures_bind {x : Call σ β} {f : β → Call σ α} (hx : Ensures x s R E)
    (hf : ∀ b s', R b s' → Ensures (f b) s' Q E) : Ensures (x >>= f) s Q E :=
  ends_bind hx hf

theorem ensures_get_bind {f : σ → Call σ α} (hf : Ensures (f s) s Q E) :
    Ensures (get >>= f) s Q E :=
  hf

variable {g : σ → σ}

theorem ensures_modify {Q : PUnit → σ → Prop} (h : Q ⟨⟩ (g s)) : Ensures (modify g) s Q E :=
  h

variable {f : PUnit → Call σ α}

theorem ensures_modify_bind (hf : Ensures (f ⟨⟩) (g s) Q E) : Ensures (modify g >>= f) s Q E :=
  hf

/-- A check that fails leaves the object as it is. -/
theorem ensures_check_bind {b : Bool} (h : E s) (hf : b = true → Ensures (f ⟨⟩) s Q E) :
    Ensures (check b e >>= f) s Q E := by
  cases hb : b with
  | true => exact hf hb
  | false => exact h

/-- A check that passes. -/
theorem ensures_check_true_bind {b : Bool} (hb : b = true) (hf : Ensures (f ⟨⟩) s Q E) :
    Ensures (check b e >>= f) s Q E := by
  subst hb
  exact hf

/-- A function that does not look at the object: it leaves it as it is. -/
theorem ensures_lift_bind {x : Outcome β} {f : β → Call σ α} (herr : ∀ e, x = .err e → E s)
    (habort : x ≠ .abort) (hf : ∀ b, x = .ok b → Ensures (f b) s Q E) :
    Ensures (lift x >>= f) s Q E := by
  match x with
  | .ok b => exact hf b rfl
  | .err e => exact herr e rfl
  | .abort => exact absurd rfl habort

/-- A call that does not succeed returns an error. -/
theorem Ensures.exists_err (h : Ensures x s (fun _ _ => False) E) :
    ∃ e s', x s = (.err e, s') ∧ E s' := by
  unfold Ensures at h
  match hr : x s with
  | (.ok a, s') =>
    rw [hr] at h
    exact h.elim
  | (.err e, s') =>
    rw [hr] at h
    exact ⟨e, s', rfl, h⟩
  | (.abort, s') =>
    rw [hr] at h
    exact h.elim

/-- A call that does not fail succeeds. -/
theorem Ensures.exists_ok (h : Ensures x s Q fun _ => False) :
    ∃ a s', x s = (.ok a, s') ∧ Q a s' := by
  unfold Ensures at h
  match hr : x s with
  | (.ok a, s') =>
    rw [hr] at h
    exact ⟨a, s', rfl, h⟩
  | (.err e, s') =>
    rw [hr] at h
    exact h.elim
  | (.abort, s') =>
    rw [hr] at h
    exact h.elim

theorem ensures_mono {Q' : α → σ → Prop} {E' : σ → Prop} (hx : Ensures x s Q E)
    (hQ : ∀ a s', Q a s' → Q' a s') (hE : ∀ s', E s' → E' s') : Ensures x s Q' E' :=
  ends_mono hx hQ hE id

/-- Where the call succeeds, this is how it ran. -/
theorem Ensures.run (h : Ensures x s Q E) :
    Ensures x s (fun a s' => Q a s' ∧ x s = (.ok a, s')) E := by
  unfold Ensures at h ⊢
  match hr : x s with
  | (.ok b, s1) =>
    rw [hr] at h
    exact ⟨h, rfl⟩
  | (.err e, s1) =>
    rw [hr] at h
    exact h
  | (.abort, s1) =>
    rw [hr] at h
    exact h

theorem Ensures.not_abort (h : Ensures x s Q E) : (x s).1 ≠ .abort := by
  unfold Ensures at h
  intro ha
  match hr : x s with
  | (.ok b, s1) =>
    rw [hr] at ha
    cases ha
  | (.err e, s1) =>
    rw [hr] at ha
    cases ha
  | (.abort, s1) =>
    rw [hr] at h
    exact h

theorem Ensures.of_ok {a : α} (h : Ensures x s Q E) (ha : (x s).1 = .ok a) : Q a (x s).2 := by
  unfold Ensures at h
  match hr : x s with
  | (.ok b, s1) =>
    rw [hr] at ha h
    cases ha
    exact h
  | (.err e, s1) =>
    rw [hr] at ha
    cases ha
  | (.abort, s1) =>
    rw [hr] at ha
    cases ha

/-- What holds whether the call succeeds or not. -/
theorem Ensures.state (h : Ensures x s Q E) (hQ : ∀ a s', Q a s' → E s') : E (x s).2 := by
  unfold Ensures at h
  match hr : x s with
  | (.ok b, s1) =>
    rw [hr] at h
    exact hQ b s1 h
  | (.err e, s1) =>
    rw [hr] at h
    exact h
  | (.abort, s1) =>
    rw [hr] at h
    exact h.elim

end ensures

/-! ## What calls leave behind

    `Leaves x s P`: however the call ends, it leaves the object in a state that
    satisfies `P`. -/

def Leaves (x : Call σ α) (s : σ) (P : σ → Prop) : Prop := P (x s).2

section leaves
variable {P : σ → Prop} {s : σ}

theorem leaves_fail {e : Errno} (h : P s) : Leaves (fail e : Call σ α) s P := h

variable {g : σ → σ}

theorem leaves_modify (h : P (g s)) : Leaves (modify g) s P := h

theorem leaves_get_bind {f : σ → Call σ α} (hf : Leaves (f s) s P) : Leaves (get >>= f) s P :=
  hf

variable {f : PUnit → Call σ α}

theorem leaves_modify_bind (hf : Leaves (f ⟨⟩) (g s) P) : Leaves (modify g >>= f) s P :=
  hf

/-- A sequence that ends with its first part, or goes on from there. -/
theorem leaves_bind {x : Call σ β} {f : β → Call σ α} (hx : Leaves x s P)
    (hf : ∀ a s', x s = (.ok a, s') → P s' → Leaves (f a) s' P) : Leaves (x >>= f) s P := by
  unfold Leaves at hx ⊢
  rw [bind_run]
  match hr : x s with
  | (.ok a, s') =>
    rw [hr] at hx
    exact hf a s' hr hx
  | (.err e, s') =>
    rw [hr] at hx
    exact hx
  | (.abort, s') =>
    rw [hr] at hx
    exact hx

/-- A check leaves the object as it is. -/
theorem leaves_check_bind {b : Bool} {e : Errno} (h : P s) (hf : b = true → Leaves (f ⟨⟩) s P) :
    Leaves (check b e >>= f) s P := by
  cases hb : b with
  | true => exact hf hb
  | false => exact h

/-- So does a function that does not look at it. -/
theorem leaves_lift_bind {x : Outcome β} {f : β → Call σ α} (h : P s)
    (hf : ∀ a, x = .ok a → Leaves (f a) s P) : Leaves (lift x >>= f) s P := by
  match x with
  | .ok a => exact hf a rfl
  | .err e => exact h
  | .abort => exact h

end leaves

end Call

/-! ## Parts of a call -/

/-- Clean up where a call returns an error. -/
def Call.cleanup {σ α : Type} (x : Call σ α) (undo : Call σ PUnit) : Call σ α := fun s =>
  match x s with
  | (.err e, s') =>
    match undo s' with
    | (.abort, s'') => (.abort, s'')
    | (_, s'') => (.err e, s'')
  | r => r

/-- Do something if the condition holds. -/
def Call.when {σ : Type} (b : Bool) (x : Call σ PUnit) : Call σ PUnit :=
  if b then x else pure ⟨⟩

/-- `assert` -/
def Call.assert {σ : Type} (b : Bool) : Call σ PUnit := if b then pure ⟨⟩ else Call.abort

namespace Call

/-- What the call leaves where it fails is what is cleaned up. -/
theorem ends_cleanup {σ α : Type} {Q : α → σ → Prop} {E F : σ → Prop} {A : Prop} {s : σ}
    {x : Call σ α} {undo : Call σ PUnit} (hx : Ends x s Q F A)
    (hundo : ∀ s', F s' → Ends undo s' (fun _ => E) E A) : Ends (cleanup x undo) s Q E A := by
  unfold Ends cleanup at *
  split at hx
  · next hr => rwa [hr]
  · next e s' hr =>
    rw [hr]
    have h := hundo s' hx
    dsimp only
    split at h
    · next hu => rwa [hu]
    · next hu => rwa [hu]
    · next hu => rwa [hu]
  · next hr => rwa [hr]

/-! ## Parts of a call that does not abort -/

section parts
variable {σ α : Type} {Q : α → σ → Prop} {E : σ → Prop} {s : σ}

/-- An assertion that holds. -/
theorem ensures_assert_bind {b : Bool} {f : PUnit → Call σ α} (hb : b = true)
    (hf : Ensures (f ⟨⟩) s Q E) : Ensures (assert b >>= f) s Q E := by
  subst hb
  exact hf

theorem ensures_when {b : Bool} {x : Call σ PUnit} {Q : PUnit → σ → Prop}
    (ht : b = true → Ensures x s Q E) (hf : b = false → Q ⟨⟩ s) : Ensures (when b x) s Q E := by
  cases hb : b with
  | true => exact ht hb
  | false => exact hf hb

theorem ensures_cleanup {x : Call σ α} {undo : Call σ PUnit} {F : σ → Prop} (hx : Ensures x s Q F)
    (hundo : ∀ s', F s' → Ensures undo s' (fun _ => E) E) : Ensures (cleanup x undo) s Q E :=
  ends_cleanup hx hundo

end parts

/-! ## Calls that may abort

    `Holds x s Q E`: where the call succeeds its result and the object satisfy
    `Q`, where it returns an error the object satisfies `E`. -/

variable {σ α β : Type}

def Holds (x : Call σ α) (s : σ) (Q : α → σ → Prop) (E : σ → Prop) : Prop :=
  match x s with
  | (.ok a, s') => Q a s'
  | (.err _, s') => E s'
  | (.abort, _) => True

section holds
variable {Q : α → σ → Prop} {R : β → σ → Prop} {E : σ → Prop} {s : σ}

theorem holds_pure {a : α} (h : Q a s) : Holds (pure a : Call σ α) s Q E := h

variable {e : Errno}

theorem holds_fail (h : E s) : Holds (fail e : Call σ α) s Q E := h

theorem holds_abort : Holds (abort : Call σ α) s Q E := trivial

variable {g : σ → σ}

theorem holds_modify {Q : PUnit → σ → Prop} (h : Q ⟨⟩ (g s)) : Holds (modify g) s Q E :=
  h

theorem holds_get_bind {f : σ → Call σ α} (hf : Holds (f s) s Q E) : Holds (get >>= f) s Q E :=
  hf

variable {f : PUnit → Call σ α}

theorem holds_modify_bind (hf : Holds (f ⟨⟩) (g s) Q E) : Holds (modify g >>= f) s Q E :=
  hf

theorem holds_bind {x : Call σ β} {f : β → Call σ α} (hx : Holds x s R E)
    (hf : ∀ b s', R b s' → Holds (f b) s' Q E) : Holds (x >>= f) s Q E :=
  ends_bind hx hf

variable {x : Call σ α}

theorem holds_mono {Q' : α → σ → Prop} {E' : σ → Prop} (hx : Holds x s Q E)
    (hQ : ∀ a s', Q a s' → Q' a s') (hE : ∀ s', E s' → E' s') : Holds x s Q' E' :=
  ends_mono hx hQ hE id

variable {b : Bool}

/-- Past an assertion it holds. -/
theorem holds_assert_bind (hf : b = true → Holds (f ⟨⟩) s Q E) : Holds (assert b >>= f) s Q E := by
  cases hb : b with
  | true => exact hf hb
  | false => trivial

theorem holds_check_bind (h : E s) (hf : b = true → Holds (f ⟨⟩) s Q E) :
    Holds (check b e >>= f) s Q E := by
  cases hb : b with
  | true => exact hf hb
  | false => exact h

theorem holds_when {x : Call σ PUnit} {Q : PUnit → σ → Prop} (ht : b = true → Holds x s Q E)
    (hf : b = false → Q ⟨⟩ s) : Holds (when b x) s Q E := by
  cases hb : b with
  | true => exact ht hb
  | false => exact hf hb

theorem holds_cleanup {undo : Call σ PUnit} {F : σ → Prop} (hx : Holds x s Q F)
    (hundo : ∀ s', F s' → Holds undo s' (fun _ => E) E) : Holds (cleanup x undo) s Q E :=
  ends_cleanup hx hundo

theorem Ensures.ends {A : Prop} (h : Ensures x s Q E) : Ends x s Q E A :=
  ends_mono h (fun _ _ h => h) (fun _ h => h) False.elim

/-- What a call ensures holds of it. -/
theorem Ensures.holds (h : Ensures x s Q E) : Holds x s Q E := h.ends

theorem Holds.ends {A : Prop} (h : Holds x s Q E) (hA : ∀ s', x s = (.abort, s') → A) :
    Ends x s Q E A := by
  unfold Holds at h
  unfold Ends
  split at h
  · next hr => rwa [hr]
  · next hr => rwa [hr]
  · next s' hr =>
    rw [hr]
    exact hA s' hr

theorem Holds.of_ok {a : α} {s' : σ} (h : Holds x s Q E) (hx : x s = (.ok a, s')) : Q a s' := by
  unfold Holds at h
  rw [hx] at h
  exact h

theorem Holds.of_err {s' : σ} (h : Holds x s Q E) (hx : x s = (.err e, s')) : E s' := by
  unfold Holds at h
  rw [hx] at h
  exact h

end holds

/-! ### What a call keeps -/

/-- However the call ends, it keeps `I`. -/
def Keeps (I : σ → Prop) (x : Call σ α) : Prop := ∀ s, I s → Holds x s (fun _ => I) I

section keeps
variable {I : σ → Prop}

theorem keeps_pure (a : α) : Keeps I (pure a : Call σ α) := fun _ h => h

theorem keeps_fail (e : Errno) : Keeps I (fail e : Call σ α) := fun _ h => h

theorem keeps_abort : Keeps I (abort : Call σ α) := fun _ _ => trivial

theorem keeps_get : Keeps I (get : Call σ σ) := fun _ h => h

theorem keeps_modify {g : σ → σ} (h : ∀ s, I s → I (g s)) : Keeps I (modify g) := h

theorem keeps_bind {x : Call σ β} {f : β → Call σ α} (hx : Keeps I x) (hf : ∀ b, Keeps I (f b)) :
    Keeps I (x >>= f) := by
  intro s h
  exact holds_bind (hx s h) fun b s' h' => hf b s' h'

theorem keeps_assert (b : Bool) : Keeps I (assert b : Call σ PUnit) := by
  cases b with
  | true => exact keeps_pure _
  | false => exact keeps_abort

theorem keeps_check (b : Bool) (e : Errno) : Keeps I (check b e : Call σ PUnit) := by
  cases b with
  | true => exact keeps_pure _
  | false => exact keeps_fail e

theorem keeps_when {b : Bool} {x : Call σ PUnit} (hx : Keeps I x) : Keeps I (when b x) := by
  cases b with
  | true => exact hx
  | false => exact keeps_pure _

variable {x : Call σ α}

theorem keeps_ite {p : Prop} [Decidable p] {y : Call σ α} (hx : Keeps I x) (hy : Keeps I y) :
    Keeps I (if p then x else y) := by
  split
  · exact hx
  · exact hy

theorem keeps_cleanup {undo : Call σ PUnit} (hx : Keeps I x) (hundo : Keeps I undo) :
    Keeps I (cleanup x undo) := by
  intro s h
  exact holds_cleanup (hx s h) hundo

end keeps

/-! ### Calls that do not fail -/

/-- The call returns no error. -/
def NoErr (x : Call σ α) : Prop := ∀ s e s', x s ≠ (.err e, s')

section noerr
variable {I : σ → Prop} {s : σ}

theorem noerr_pure (a : α) : NoErr (pure a : Call σ α) := by
  intro s e s' h
  cases h

theorem noerr_abort : NoErr (abort : Call σ α) := by
  intro s e s' h
  cases h

theorem noerr_get : NoErr (get : Call σ σ) := by
  intro s e s' h
  cases h

theorem noerr_modify (g : σ → σ) : NoErr (modify g) := by
  intro s e s' h
  cases h

theorem noerr_bind {x : Call σ β} {f : β → Call σ α} (hx : NoErr x) (hf : ∀ b, NoErr (f b)) :
    NoErr (x >>= f) := by
  intro s e s' h
  rw [bind_run] at h
  match hr : x s with
  | (.ok b, s1) =>
    rw [hr] at h
    exact hf b s1 e s' h
  | (.err e1, s1) => exact hx s e1 s1 hr
  | (.abort, s1) =>
    rw [hr] at h
    cases h

theorem noerr_assert (b : Bool) : NoErr (assert b : Call σ PUnit) := by
  cases b with
  | true => exact noerr_pure _
  | false => exact noerr_abort

theorem noerr_when {b : Bool} {x : Call σ PUnit} (hx : NoErr x) : NoErr (when b x) := by
  cases b with
  | true => exact hx
  | false => exact noerr_pure _

variable {x : Call σ α}

theorem noerr_ite {p : Prop} [Decidable p] {y : Call σ α} (hx : NoErr x) (hy : NoErr y) :
    NoErr (if p then x else y) := by
  split
  · exact hx
  · exact hy

/-- What such a call keeps holds after it. -/
theorem holds_keeps {E : σ → Prop} (hk : Keeps I x) (hn : NoErr x) (h : I s) :
    Holds x s (fun _ => I) E := by
  have hx := hk s h
  unfold Holds at hx ⊢
  match hr : x s with
  | (.ok b, s1) =>
    rw [hr] at hx
    exact hx
  | (.err e1, s1) => exact absurd hr (hn s e1 s1)
  | (.abort, s1) => trivial

end noerr

/-! ## Calls that agree

    `Agree R x y s`: from this state the two calls succeed together, with
    results that are related, and leave the same object. -/

def Agree (R : α → β → Prop) (x : Call σ α) (y : Call σ β) (s : σ) : Prop :=
  (∀ a s', x s = (.ok a, s') → ∃ b, y s = (.ok b, s') ∧ R a b) ∧
    ∀ b s', y s = (.ok b, s') → ∃ a, x s = (.ok a, s') ∧ R a b

section agree
variable {γ δ : Type} {R : α → β → Prop} {R' : γ → δ → Prop} {x : Call σ α} {y : Call σ β} {s : σ}

theorem agree_pure {a : α} {b : β} (h : R a b) : Agree R (pure a : Call σ α) (pure b) s := by
  constructor
  · intro a' s' ha
    cases ha
    exact ⟨b, rfl, h⟩
  · intro b' s' hb
    cases hb
    exact ⟨a, rfl, h⟩

/-- Neither succeeds. -/
theorem agree_of_not_ok (hx : ∀ a s', x s ≠ (.ok a, s')) (hy : ∀ b s', y s ≠ (.ok b, s')) :
    Agree R x y s :=
  ⟨fun a s' h => absurd h (hx a s'), fun b s' h => absurd h (hy b s')⟩

/-- What only cleans up after an error succeeds as it does without. -/
theorem agree_cleanup (x : Call σ α) (undo : Call σ PUnit) (s : σ) : Agree Eq (cleanup x undo) x s := by
  constructor
  · intro a s' h
    unfold cleanup at h
    match hx : x s with
    | (.ok b, s1) =>
      rw [hx] at h
      exact ⟨a, h, rfl⟩
    | (.err e, s1) =>
      rw [hx] at h
      dsimp only at h
      match hu : undo s1 with
      | (.ok _, s2) =>
        rw [hu] at h
        cases h
      | (.err _, s2) =>
        rw [hu] at h
        cases h
      | (.abort, s2) =>
        rw [hu] at h
        cases h
    | (.abort, s1) =>
      rw [hx] at h
      cases h
  · intro a s' h
    refine ⟨a, ?_, rfl⟩
    unfold cleanup
    rw [h]

variable {f : α → Call σ γ}

/-- Sequences agree whose parts do. -/
theorem agree_bind {g : β → Call σ δ} (hx : Agree R x y s)
    (hf : ∀ a b s', x s = (.ok a, s') → y s = (.ok b, s') → R a b → Agree R' (f a) (g b) s') :
    Agree R' (x >>= f) (y >>= g) s := by
  constructor
  · intro c s' h
    obtain ⟨a, s1, ha, h⟩ := of_bind_ok h
    obtain ⟨b, hb, hab⟩ := hx.1 a s1 ha
    obtain ⟨d, hd, hcd⟩ := (hf a b s1 ha hb hab).1 c s' h
    exact ⟨d, by rw [bind_run_ok hb, hd], hcd⟩
  · intro d s' h
    obtain ⟨b, s1, hb, h⟩ := of_bind_ok h
    obtain ⟨a, ha, hab⟩ := hx.2 b s1 hb
    obtain ⟨c, hc, hcd⟩ := (hf a b s1 ha hb hab).2 d s' h
    exact ⟨c, by rw [bind_run_ok ha, hc], hcd⟩

variable {g : α → Call σ δ}

/-- After the same call, only what follows has to agree. -/
theorem agree_bind_ok {x : Call σ α} {a : α} {s' : σ} (h : x s = (.ok a, s')) :
    Agree R' (x >>= f) (x >>= g) s ↔ Agree R' (f a) (g a) s' := by
  unfold Agree
  rw [bind_run_ok h, bind_run_ok h]

/-- After a call that does not succeed nothing has to agree. -/
theorem agree_bind_of_not_ok {x : Call σ α} (h : ∀ a s', x s ≠ (.ok a, s')) :
    Agree R' (x >>= f) (x >>= g) s := by
  refine agree_of_not_ok (fun c s' hc => ?_) (fun d s' hd => ?_)
  · obtain ⟨a, s1, ha, -⟩ := of_bind_ok hc
    exact h a s1 ha
  · obtain ⟨a, s1, ha, -⟩ := of_bind_ok hd
    exact h a s1 ha

/-- Cleaning up on the way out of an error makes no difference. -/
theorem agree_cleanup_iff {undo : Call σ PUnit} : Agree R (cleanup x undo) y s ↔ Agree R x y s := by
  have hx := agree_cleanup x undo s
  constructor
  · rintro ⟨hl, hr⟩
    refine ⟨fun a s' h => ?_, fun b s' h => ?_⟩
    · obtain ⟨_, ha, rfl⟩ := hx.2 a s' h
      exact hl _ s' ha
    · obtain ⟨a, ha, hab⟩ := hr b s' h
      obtain ⟨_, ha', rfl⟩ := hx.1 a s' ha
      exact ⟨_, ha', hab⟩
  · rintro ⟨hl, hr⟩
    refine ⟨fun a s' h => ?_, fun b s' h => ?_⟩
    · obtain ⟨_, ha, rfl⟩ := hx.1 a s' h
      exact hl _ s' ha
    · obtain ⟨a, ha, hab⟩ := hr b s' h
      obtain ⟨_, ha', rfl⟩ := hx.2 a s' ha
      exact ⟨_, ha', hab⟩

end agree

/-! ## Calls with more fuel

    `Within x y s`: unless `x` runs out of fuel from this state, which is shown
    as an abort, `y` does the same. -/

def Within (x y : Call σ α) (s : σ) : Prop := ∀ o s', x s = (o, s') → o ≠ .abort → y s = (o, s')

section within
variable {x y : Call σ α} {s : σ}

theorem within_refl (x : Call σ α) (s : σ) : Within x x s := fun _ _ h _ => h

theorem within_abort (y : Call σ α) (s : σ) : Within abort y s := by
  intro o s' h hne
  cases h
  exact absurd rfl hne

theorem within_bind {f g : α → Call σ β} (hx : Within x y s) (hf : ∀ a s', Within (f a) (g a) s') :
    Within (x >>= f) (y >>= g) s := by
  intro o s' h hne
  rw [bind_run] at h ⊢
  match hrun : x s with
  | (.ok a, s1) =>
    rw [hrun] at h
    rw [hx _ _ hrun (by simp)]
    exact hf a s1 o s' h hne
  | (.err e, s1) =>
    rw [hrun] at h
    rw [hx _ _ hrun (by simp)]
    exact h
  | (.abort, s1) =>
    rw [hrun] at h
    cases h
    exact absurd rfl hne

end within

/-! ## Calls on two objects

    `Twice R x S`: on objects that are related by `R` the call ends in the same
    way, and if it succeeds they are related by `S` after it. -/

def Twice (R : σ → σ → Prop) (x : Call σ α) (S : σ → σ → Prop) : Prop :=
  ∀ s t, R s t → (x s).1 = (x t).1 ∧ ∀ a, (x s).1 = .ok a → S (x s).2 (x t).2

section twice
variable {R S T : σ → σ → Prop}

theorem twice_fail (e : Errno) : Twice R (fail e : Call σ α) S := by
  intro s t _
  refine ⟨rfl, ?_⟩
  intro a ha
  cases ha

theorem twice_pure {a : α} (h : ∀ s t, R s t → S s t) : Twice R (pure a : Call σ α) S :=
  fun s t hst => ⟨rfl, fun _ _ => h s t hst⟩

theorem twice_modify {g : σ → σ} (h : ∀ s t, R s t → S (g s) (g t)) : Twice R (modify g) S :=
  fun s t hst => ⟨rfl, fun _ _ => h s t hst⟩

theorem twice_bind {x : Call σ α} {f : α → Call σ β} (hx : Twice R x S)
    (hf : ∀ a, Twice S (f a) T) : Twice R (x >>= f) T := by
  intro s t hst
  obtain ⟨hsame, hok⟩ := hx s t hst
  rw [bind_run, bind_run]
  match hs : x s, ht : x t with
  | (.ok a, s'), (.ok b, t') =>
    rw [hs, ht] at hsame hok
    cases hsame
    exact hf a s' t' (hok a rfl)
  | (.err e, s'), (.err e', t') =>
    rw [hs, ht] at hsame
    cases hsame
    exact ⟨rfl, nofun⟩
  | (.abort, s'), (.abort, t') => exact ⟨rfl, nofun⟩
  | (.ok _, _), (.err _, _) | (.ok _, _), (.abort, _) | (.err _, _), (.ok _, _)
  | (.err _, _), (.abort, _) | (.abort, _), (.ok _, _) | (.abort, _), (.err _, _) =>
    rw [hs, ht] at hsame
    cases hsame

theorem twice_check_bind {b : Bool} {e : Errno} {f : PUnit → Call σ α} (hf : Twice R (f ⟨⟩) S) :
    Twice R (check b e >>= f) S := by
  cases b with
  | true => exact hf
  | false => exact twice_fail e

theorem twice_lift_bind {x : Outcome β} {f : β → Call σ α}
    (hf : ∀ a, x = .ok a → Twice R (f a) S) : Twice R (lift x >>= f) S := by
  match x with
  | .ok a => exact hf a rfl
  | .err e => exact fun s t _ => ⟨rfl, nofun⟩
  | .abort => exact fun s t _ => ⟨rfl, nofun⟩

end twice

end Call

end SdCompat
