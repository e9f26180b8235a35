import SdCompat.SdBus.Match

/-! # Patterns of names and paths (bus-internal.c)

    What `simple_pattern_check` and `complex_pattern_check` decide, said with
    the labels of both strings, which are what stands between the separators.

    * `simple_pattern_check_iff`, `complex_pattern_check_iff`: what the loops
      decide;
    * `labels_prefix_iff`: when labels start with other labels;
    * `patterns_iff`: the tests of the match tree.
-/

namespace SdCompat.Match

open List

variable {c : UInt8} {separator : Bool} {a b : List UInt8} {xs ys : List (List UInt8)}

/-- Whether the string ends in the separator; `separator` is said of the
    character before it. -/
def ends_in (c : UInt8) (separator : Bool) (a : List UInt8) : Prop :=
  match a.getLast? with
  | none => separator = true
  | some x => x = c

/-- The labels of a name or path. -/
def labels (c : UInt8) (s : List UInt8) : List (List UInt8) := s.splitOn c

/-! ## Section 1: The loops -/

theorem ends_in_cons (x : UInt8) (a : List UInt8) :
    ends_in c separator (x :: a) ↔ ends_in c (x == c) a := by
  unfold ends_in
  cases a with
  | nil => simp
  | cons y a => rw [getLast?_cons_cons]; simp [getLast?_cons]

/-- One string is the other, or starts with it at a separator. -/
theorem simple_pattern_check_iff : simple_pattern_check c separator a b = true ↔
      a = b ∨ (∃ y, b = a ++ c :: y) ∨ ends_in c separator a ∧ ∃ y, b = a ++ y := by
  induction a generalizing b separator with
  | nil =>
    cases b with
    | nil => simp [simple_pattern_check]
    | cons y b => simp [simple_pattern_check, ends_in]
  | cons x a ih =>
    cases b with
    | nil => simp [simple_pattern_check]
    | cons y b =>
      rw [simple_pattern_check, ends_in_cons]
      by_cases hxy : x = y
      · subst hxy
        rw [if_neg (by simp), ih]
        simp
      · rw [if_pos hxy]
        simp [hxy, Ne.symm hxy]

/-- One string is the other, or starts with it and it ends in a separator. -/
theorem complex_pattern_check_iff : complex_pattern_check c separator a b = true ↔
      a = b ∨ (ends_in c separator a ∧ ∃ y, b = a ++ y) ∨
        ends_in c separator b ∧ ∃ y, a = b ++ y := by
  induction a generalizing b separator with
  | nil =>
    cases b with
    | nil => simp [complex_pattern_check]
    | cons y b => simp [complex_pattern_check, ends_in]
  | cons x a ih =>
    cases b with
    | nil => simp [complex_pattern_check, ends_in]
    | cons y b =>
      rw [complex_pattern_check, ends_in_cons, ends_in_cons]
      by_cases hxy : x = y
      · subst hxy
        rw [if_neg (by simp), ih]
        simp
      · rw [if_pos hxy]
        simp [hxy, Ne.symm hxy]

/-! ## Section 2: Labels -/

theorem labels_ne_nil (s : List UInt8) : labels c s ≠ [] := splitOn_ne_nil c s

theorem intercalate_labels (s : List UInt8) : [c].intercalate (labels c s) = s :=
  intercalate_splitOn c

theorem labels_append (a y : List UInt8) : labels c (a ++ c :: y) = labels c a ++ labels c y :=
  splitOn_append_cons_self a y

theorem intercalate_append (hx : xs ≠ []) (hy : ys ≠ []) :
    [c].intercalate (xs ++ ys) = [c].intercalate xs ++ c :: [c].intercalate ys := by
  induction xs with
  | nil => exact absurd rfl hx
  | cons x xs ih =>
    by_cases hn : xs = []
    · subst hn
      rw [singleton_append, intercalate_cons_of_ne_nil hy]
      simp
    · rw [cons_append, intercalate_cons_of_ne_nil (by simp [hn]),
        intercalate_cons_of_ne_nil hn, ih hn]
      simp

/-- Labels start with other labels where a separator follows. -/
theorem labels_prefix_iff : labels c a <+: labels c b ↔ a = b ∨ ∃ y, b = a ++ c :: y := by
  constructor
  · rintro ⟨rest, hrest⟩
    have hb := congrArg ([c].intercalate ·) hrest
    simp only [intercalate_labels] at hb
    by_cases hn : rest = []
    · left
      rw [hn, append_nil, intercalate_labels] at hb
      exact hb
    · right
      rw [intercalate_append (labels_ne_nil a) hn, intercalate_labels] at hb
      exact ⟨_, hb.symm⟩
  · rintro (rfl | ⟨y, rfl⟩)
    · exact prefix_refl _
    · rw [labels_append]
      exact prefix_append _ _

/-- A string that ends in a separator has an empty last label. -/
theorem ends_in_iff : ends_in c false a ↔ ∃ p, a = p ++ [c] := by
  unfold ends_in
  rcases eq_nil_or_concat a with rfl | ⟨p, x, rfl⟩
  · simp
  · simp

/-- The labels before an empty last one, and more. -/
theorem proper_prefix_iff {p : List UInt8} :
    labels c p <+: labels c b ∧ labels c p ≠ labels c b ↔ ∃ y, b = p ++ c :: y := by
  constructor
  · rintro ⟨hfirst, hne⟩
    rcases labels_prefix_iff.mp hfirst with rfl | h
    · exact absurd rfl hne
    · exact h
  · rintro ⟨y, rfl⟩
    refine ⟨labels_prefix_iff.mpr (.inr ⟨y, rfl⟩), ?_⟩
    rw [labels_append]
    intro h
    exact labels_ne_nil y (self_eq_append_right.mp h)

/-! ## Section 3: The tests -/

/-- A simple pattern: its labels are the first ones of the value, or it ends in
    the separator and the value has the labels before, and more. -/
def SimplePrefix (c : UInt8) (pattern value : List UInt8) : Prop :=
  labels c pattern <+: labels c value ∨
    ∃ p, pattern = p ++ [c] ∧ labels c p <+: labels c value ∧ labels c p ≠ labels c value

theorem simple_pattern_check_labels :
    simple_pattern_check c false a b = true ↔ SimplePrefix c a b := by
  rw [simple_pattern_check_iff, SimplePrefix, labels_prefix_iff, ends_in_iff, or_assoc]
  refine or_congr_right (or_congr_right ?_)
  constructor
  · rintro ⟨⟨p, rfl⟩, y, rfl⟩
    exact ⟨p, rfl, proper_prefix_iff.mpr ⟨y, by simp⟩⟩
  · rintro ⟨p, rfl, hproper⟩
    obtain ⟨y, rfl⟩ := proper_prefix_iff.mp hproper
    exact ⟨⟨p, rfl⟩, y, by simp⟩

/-- What the tests of the match tree decide, for all strings. -/
theorem patterns_iff (pattern value : List UInt8) :
    (namespace_simple_pattern pattern value = true ↔ SimplePrefix 0x2e pattern value) ∧
    (path_simple_pattern pattern (some value) = true ↔ SimplePrefix 0x2f pattern value) ∧
    (path_complex_pattern pattern value = true ↔
      pattern = value ∨ (pattern.getLast? = some 0x2f ∧ pattern <+: value) ∨
        (value.getLast? = some 0x2f ∧ value <+: pattern)) := by
  refine ⟨simple_pattern_check_labels, simple_pattern_check_labels, ?_⟩
  have hends : ∀ s : List UInt8, ends_in 0x2f false s ↔ s.getLast? = some 0x2f := by
    intro s
    unfold ends_in
    cases s.getLast? with
    | none => simp
    | some x => simp
  have hfirst : ∀ s s' : List UInt8, (∃ y, s' = s ++ y) ↔ s <+: s' := by
    intro s s'
    exact exists_congr fun y => eq_comm
  unfold path_complex_pattern
  rw [complex_pattern_check_iff, hends, hends, hfirst, hfirst]

/-- The last label of `a.` is empty, and `a.b` has another label there. -/
theorem simple_pattern_trailing :
    namespace_simple_pattern (ascii "a.") (ascii "a.b") = true ∧
      ¬ labels 0x2e (ascii "a.") <+: labels 0x2e (ascii "a.b") := by
  decide

end SdCompat.Match
