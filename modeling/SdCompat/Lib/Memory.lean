import Mathlib.Data.List.Basic

/-! # Memory

    What has been allocated, with the cells that have been freed: an address is
    not used again, so that a use after the free can be told from any other.
    The first access to a cell that is not live sets `fault`, and nothing
    clears it.
-/

universe u

/-- Cells of one type, by their address; `none` has been freed. -/
structure Memory (α : Type u) where
  cells : List (Option α)
  fault : Bool
  deriving DecidableEq

namespace Memory

open List Option

variable {α : Type u}

/-- No cell has been allocated. -/
def empty : Memory α := ⟨[], false⟩

/-- The content of a live cell. -/
def get (m : Memory α) (p : Nat) : Option α := (m.cells[p]?).join

/-- The next address. -/
def next (m : Memory α) : Nat := m.cells.length

/-- `malloc`: the new cell is at `m.next`. -/
def alloc (m : Memory α) (a : α) : Memory α := { m with cells := m.cells ++ [some a] }

/-- Reads or writes a cell. -/
def modify (m : Memory α) (p : Nat) (f : α → α) : Memory α :=
  match m.get p with
  | some a => { m with cells := m.cells.set p (some (f a)) }
  | none => { m with fault := true }

/-- Reads a cell. -/
def touch (m : Memory α) (p : Nat) : Memory α :=
  match m.get p with
  | some _ => m
  | none => { m with fault := true }

/-- `free` -/
def free (m : Memory α) (p : Nat) : Memory α :=
  match m.get p with
  | some _ => { m with cells := m.cells.set p none }
  | none => { m with fault := true }

variable {m : Memory α} {p q : Nat} {a b : α} {f : α → α}

@[simp] theorem get_empty (p : Nat) : (empty : Memory α).get p = none := by
  simp [get, empty]

theorem get_lt (h : m.get p = some a) : p < m.next := by
  unfold get at h
  rw [join_eq_some_iff] at h
  exact (List.getElem?_eq_some_iff.mp h).1

@[simp] theorem alloc_fault (m : Memory α) (a : α) : (m.alloc a).fault = m.fault := rfl

@[simp] theorem get_alloc_next (m : Memory α) (a : α) : (m.alloc a).get m.next = some a := by
  simp [get, alloc, next]

theorem get_alloc_of_ne (h : p ≠ m.next) : (m.alloc a).get p = m.get p := by
  unfold get alloc next at *
  by_cases hlt : p < m.cells.length
  · rw [getElem?_append_left hlt]
  · have hone : [some a].length ≤ p - m.cells.length := by
      rw [length_singleton]
      omega
    rw [getElem?_append_right (by omega), getElem?_eq_none hone,
      getElem?_eq_none (by omega)]

/-- What was live stays as it was. -/
theorem get_alloc_of_get (h : m.get p = some b) : (m.alloc a).get p = some b := by
  have hlt := get_lt h
  unfold get alloc next at *
  rw [getElem?_append_left hlt, h]

theorem touch_of_get (h : m.get p = some a) : m.touch p = m := by
  simp [touch, h]

theorem fault_modify (h : m.get p = some a) : (m.modify p f).fault = m.fault := by
  simp [modify, h]

theorem get_modify_self (h : m.get p = some a) : (m.modify p f).get p = some (f a) := by
  have hlt := get_lt h
  unfold next at hlt
  unfold modify
  rw [h]
  simp [get, hlt]

/-- A change of the new cell. -/
@[simp] theorem modify_alloc_next (m : Memory α) (a : α) (f : α → α) :
    (m.alloc a).modify m.next f = m.alloc (f a) := by
  unfold modify
  rw [get_alloc_next]
  simp [alloc, next]

theorem get_modify_of_ne (h : q ≠ p) : (m.modify p f).get q = m.get q := by
  unfold modify
  cases hp : m.get p with
  | some a => simp [get, h.symm]
  | none => rfl

theorem fault_free (h : m.get p = some a) : (m.free p).fault = m.fault := by
  simp [free, h]

theorem get_free_self (m : Memory α) (p : Nat) : (m.free p).get p = none := by
  unfold free
  cases hp : m.get p with
  | some a =>
    have hlt := get_lt hp
    unfold next at hlt
    simp [get, hlt]
  | none => exact hp

theorem get_free_of_ne (h : q ≠ p) : (m.free p).get q = m.get q := by
  unfold free
  cases hp : m.get p with
  | some a => simp [get, h.symm]
  | none => rfl

/-! ## What has been allocated since

    `Owns m₀ m ps`: since `m₀` the cells `ps` have been allocated, and nothing
    else has changed. -/

structure Owns (m₀ m : Memory α) (ps : List Nat) : Prop where
  nodup : ps.Nodup
  live : ∀ p ∈ ps, (m.get p).isSome
  new : ∀ p ∈ ps, m₀.get p = none
  rest : ∀ p, p ∉ ps → m.get p = m₀.get p
  fault : m.fault = m₀.fault

section owns
variable {m₀ : Memory α} {ps qs : List Nat}

theorem get_next (m : Memory α) : m.get m.next = none := by
  cases h : m.get m.next with
  | none => rfl
  | some a => exact absurd (get_lt h) (Nat.lt_irrefl _)

theorem Owns.refl (m : Memory α) : Owns m m [] :=
  ⟨nodup_nil, by simp, by simp, fun _ _ => rfl, rfl⟩

theorem Owns.perm (h : Owns m₀ m ps) (hp : ps.Perm qs) : Owns m₀ m qs where
  nodup := hp.nodup_iff.mp h.nodup
  live p hmem := h.live p (hp.mem_iff.mpr hmem)
  new p hmem := h.new p (hp.mem_iff.mpr hmem)
  rest p hnot := h.rest p (mt hp.mem_iff.mp hnot)
  fault := h.fault

theorem Owns.next_not_mem (h : Owns m₀ m ps) : m.next ∉ ps := by
  intro hmem
  have hlive := h.live _ hmem
  rw [get_next] at hlive
  cases hlive

/-- A cell is allocated. -/
theorem Owns.alloc (h : Owns m₀ m ps) (a : α) : Owns m₀ (m.alloc a) (m.next :: ps) where
  nodup := nodup_cons.mpr ⟨h.next_not_mem, h.nodup⟩
  live := by
    intro p hmem
    rcases mem_cons.mp hmem with rfl | hmem
    · rw [get_alloc_next]
      rfl
    · obtain ⟨b, hb⟩ := isSome_iff_exists.mp (h.live p hmem)
      rw [get_alloc_of_get hb]
      rfl
  new := by
    intro p hmem
    rcases mem_cons.mp hmem with rfl | hmem
    · rw [← h.rest _ h.next_not_mem, get_next]
    · exact h.new p hmem
  rest := by
    intro p hnot
    rw [mem_cons, not_or] at hnot
    rw [get_alloc_of_ne hnot.1, h.rest p hnot.2]
  fault := h.fault

/-- A cell is freed. -/
theorem Owns.free (h : Owns m₀ m (p :: ps)) : Owns m₀ (m.free p) ps := by
  obtain ⟨hnot, hnodup⟩ := nodup_cons.mp h.nodup
  obtain ⟨a, ha⟩ := isSome_iff_exists.mp (h.live p mem_cons_self)
  refine ⟨hnodup, ?_, ?_, ?_, ?_⟩
  · intro q hmem
    have hne : q ≠ p := fun heq => hnot (heq ▸ hmem)
    rw [get_free_of_ne hne]
    exact h.live q (mem_cons_of_mem _ hmem)
  · intro q hmem
    exact h.new q (mem_cons_of_mem _ hmem)
  · intro q hq
    by_cases heq : q = p
    · rw [heq, get_free_self, h.new p mem_cons_self]
    · rw [get_free_of_ne heq]
      exact h.rest q fun hmem => (mem_cons.mp hmem).elim heq hq
  · rw [fault_free ha]
    exact h.fault

/-- A cell is read or written. -/
theorem Owns.touch (h : Owns m₀ m ps) (hp : p ∈ ps) : Owns m₀ (m.touch p) ps := by
  obtain ⟨a, ha⟩ := isSome_iff_exists.mp (h.live p hp)
  rw [touch_of_get ha]
  exact h

end owns

end Memory
