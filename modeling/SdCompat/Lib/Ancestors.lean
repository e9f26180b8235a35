import Mathlib.Order.Basic

/-! # Ancestors

    Things that have a parent, or none, and a rank that grows away from it.
    A set of things covers what is at one of them or above it.

    * `Forest.Above`: the ancestors of a thing, and the thing itself;
    * `Forest.Covers`: what a set of things covers;
    * `Forest.covers_kept`, `Forest.covers_removed`: what becomes of a table
      that holds what is covered, and also the ancestors of one thing more, if
      that thing is kept, and if it is removed.
-/

/-- Parents, of lower rank. -/
structure Forest (α : Type*) where
  parent : α → Option α
  rank : α → Nat
  parent_lt : ∀ {p r}, parent p = some r → rank r < rank p

namespace Forest

variable {α : Type*} {F : Forest α} {p q r c : α} {R T : α → Prop}

/-- `Above F q p`: `q` is `p`, or above it. -/
inductive Above (F : Forest α) (q : α) : α → Prop where
  | self : Above F q q
  | up {p r : α} : F.parent p = some r → Above F q r → Above F q p

theorem Above.trans (h : F.Above q p) (hp : F.Above p r) : F.Above q r := by
  induction hp with
  | self => exact h
  | up hpar _ ih => exact .up hpar ih

theorem Above.rank_le (h : F.Above q p) : F.rank q ≤ F.rank p := by
  induction h with
  | self => exact Nat.le_refl _
  | up hpar _ ih => exact Nat.le_of_lt (Nat.lt_of_le_of_lt ih (F.parent_lt hpar))

/-- What is above a thing is the thing, or above its parent. -/
theorem above_iff_of_parent (h : F.parent p = some r) : F.Above q p ↔ q = p ∨ F.Above q r := by
  constructor
  · intro habove
    cases habove with
    | self => exact .inl rfl
    | up hpar hr =>
      rw [h] at hpar
      cases hpar
      exact .inr hr
  · rintro (rfl | hr)
    · exact .self
    · exact .up h hr

theorem above_iff_of_root (h : F.parent p = none) : F.Above q p ↔ q = p := by
  constructor
  · intro habove
    cases habove with
    | self => rfl
    | up hpar _ =>
      rw [h] at hpar
      cases hpar
  · rintro rfl
    exact .self

/-- Nothing is above its own parent. -/
theorem not_above_parent (h : F.parent p = some r) : ¬ F.Above p r :=
  fun habove => Nat.lt_irrefl _ (Nat.lt_of_le_of_lt habove.rank_le (F.parent_lt h))

/-- From above, the way down leads over a child. -/
theorem Above.eq_or_child (h : F.Above q p) : q = p ∨ ∃ c, F.parent c = some q ∧ F.Above c p := by
  induction h with
  | self => exact .inl rfl
  | up hpar _ ih =>
    right
    rcases ih with rfl | ⟨c, hc, hcr⟩
    · exact ⟨_, hpar, .self⟩
    · exact ⟨c, hc, .up hpar hcr⟩

/-- The set has a member that is `q` or below it. -/
def Covers (F : Forest α) (R : α → Prop) (q : α) : Prop := ∃ r, R r ∧ F.Above q r

theorem covers_of_mem (h : R q) : F.Covers R q := ⟨q, h, .self⟩

theorem Covers.above (h : F.Covers R p) (hq : F.Above q p) : F.Covers R q := by
  obtain ⟨r, hr, habove⟩ := h
  exact ⟨r, hr, hq.trans habove⟩

theorem Covers.mono {S : α → Prop} (h : F.Covers R q) (hRS : ∀ r, R r → S r) : F.Covers S q := by
  obtain ⟨r, hr, habove⟩ := h
  exact ⟨r, hRS r hr, habove⟩

/-- One member more covers what is above it as well. -/
theorem covers_insert : F.Covers (fun r => R r ∨ r = p) q ↔ F.Covers R q ∨ F.Above q p := by
  constructor
  · rintro ⟨r, hr | rfl, habove⟩
    · exact .inl ⟨r, hr, habove⟩
    · exact .inr habove
  · rintro (h | h)
    · exact h.mono fun _ => .inl
    · exact ⟨p, .inr rfl, h⟩

section
variable (hT : ∀ q, T q ↔ F.Covers R q ∨ F.Above q p)
include hT

/-- A thing that is in the set, or has a child in the table, is covered. -/
theorem covers_kept (hp : R p ∨ ∃ c, F.parent c = some p ∧ T c) (q : α) : T q ↔ F.Covers R q := by
  have hcovered : F.Covers R p := by
    rcases hp with hp | ⟨c, hc, hTc⟩
    · exact covers_of_mem hp
    · rcases (hT c).mp hTc with hcov | habove
      · exact hcov.above (.up hc .self)
      · exact absurd habove.rank_le (Nat.not_le_of_lt (F.parent_lt hc))
  rw [hT]
  exact ⟨fun h => h.elim id hcovered.above, .inl⟩

/-- One that is not, and has none, is not covered. -/
theorem not_covers (hp : ¬ R p) (hchild : ∀ c, F.parent c = some p → ¬ T c) : ¬ F.Covers R p := by
  rintro ⟨r, hr, habove⟩
  rcases habove.eq_or_child with rfl | ⟨c, hc, hcr⟩
  · exact hp hr
  · exact hchild c hc ((hT c).mpr (.inl ⟨r, hr, hcr⟩))

/-- Once it is removed, the table holds what is above its parent. -/
theorem covers_removed (hp : ¬ R p) (hchild : ∀ c, F.parent c = some p → ¬ T c) (q : α) :
    T q ∧ q ≠ p ↔ F.Covers R q ∨ ∃ r, F.parent p = some r ∧ F.Above q r := by
  have hnot := not_covers hT hp hchild
  have hne : F.Covers R q → q ≠ p := by
    rintro h rfl
    exact hnot h
  rw [hT]
  constructor
  · rintro ⟨hcov | habove, hqp⟩
    · exact .inl hcov
    · cases habove with
      | self => exact absurd rfl hqp
      | up hpar hr => exact .inr ⟨_, hpar, hr⟩
  · rintro (hcov | ⟨r, hpar, hr⟩)
    · exact ⟨.inl hcov, hne hcov⟩
    · refine ⟨.inr (.up hpar hr), ?_⟩
      rintro rfl
      exact not_above_parent hpar hr

end

end Forest
