import SdCompat.Basic.PathUtil
import Mathlib.Data.List.TakeWhile

/-! # Paths in normal form (path-util.c)

    A path that is put together from components, one slash between two, and
    perhaps one before the first. What the functions of path-util.c do with such
    a path is said in terms of the components:

    * `path_find_first_component_join`: the first is taken off;
    * `path_is_valid_pathname`: it is valid if it is short enough;
    * `path_simplify_pathname`: it is simplified already;
    * `path_extract_directory_root`, `_concat`: the last is taken off;
    * `path_extend_pathname`: one is added.
-/

namespace SdCompat.PathUtil

open List Outcome Prod

variable {a b rest : Text} {names : List Text}

/-- A component of a path. It may be `".."`. -/
structure IsComponent (a : Text) : Prop where
  ne_nil : a ≠ []
  no_slash : slash ∉ a
  ne_dot : a ≠ [dot]
  length_le : a.length ≤ NAME_MAX

/-- Components with slashes between them. -/
def join (names : List Text) : Text := [slash].intercalate names

/-- A path in normal form. -/
def pathname (absolute : Bool) (names : List Text) : Text :=
  (if absolute then [slash] else []) ++ join names

/-- What can stand after a component. -/
def Ends (rest : Text) : Prop := rest = [] ∨ ∃ r, rest = slash :: r

/-! ## Section 1: Putting together -/

@[simp] theorem join_nil : join [] = [] := rfl

@[simp] theorem join_singleton (a : Text) : join [a] = a := intercalate_singleton

theorem join_cons (a : Text) (h : names ≠ []) : join (a :: names) = a ++ slash :: join names := by
  unfold join
  rw [intercalate_cons_of_ne_nil h]
  simp

theorem join_concat (a : Text) (h : names ≠ []) :
    join (names ++ [a]) = join names ++ slash :: a := by
  induction names with
  | nil => exact absurd rfl h
  | cons b names ih =>
    rw [cons_append, join_cons b (by simp)]
    by_cases hn : names = []
    · subst hn
      simp
    · rw [ih hn, join_cons b hn]
      simp

theorem join_cons_ne_nil (ha : IsComponent a) (names : List Text) : join (a :: names) ≠ [] := by
  by_cases hn : names = []
  · rw [hn, join_singleton]
    exact ha.ne_nil
  · rw [join_cons a hn]
    simp

theorem join_ne_nil (hall : ∀ a ∈ names, IsComponent a) (h : names ≠ []) : join names ≠ [] := by
  cases names with
  | nil => exact absurd rfl h
  | cons a names => exact join_cons_ne_nil (hall a (by simp)) names

/-- What follows the first component. -/
theorem join_cons_ends (a : Text) (names : List Text) :
    ∃ rest, join (a :: names) = a ++ rest ∧ Ends rest ∧
      (names = [] ∧ rest = [] ∨ rest = slash :: join names) := by
  by_cases hn : names = []
  · refine ⟨[], ?_, .inl rfl, .inl ⟨hn, rfl⟩⟩
    rw [hn, join_singleton, append_nil]
  · exact ⟨slash :: join names, join_cons a hn, .inr ⟨_, rfl⟩, .inr rfl⟩

/-! ## Section 2: From the front -/

theorem skip_slash_or_dot_slash (p : Text) :
    skip_slash_or_dot (slash :: p) = skip_slash_or_dot p := by
  cases p with
  | nil => simp [skip_slash_or_dot]
  | cons c p => rw [skip_slash_or_dot, if_pos rfl]

/-- A component is not skipped. -/
theorem skip_slash_or_dot_component (ha : IsComponent a) (hr : Ends rest) :
    skip_slash_or_dot (a ++ rest) = a ++ rest := by
  match a, ha with
  | [], ha => exact absurd rfl ha.ne_nil
  | [c], ha =>
    have hc : c ≠ slash := fun h => ha.no_slash (by simp [h])
    have hdot : c ≠ dot := fun h => ha.ne_dot (by rw [h])
    rcases hr with rfl | ⟨r, rfl⟩
    · rw [append_nil, skip_slash_or_dot, if_neg hc]
    · rw [singleton_append, skip_slash_or_dot, if_neg hc, if_neg fun h => hdot h.1]
  | c :: c' :: a, ha =>
    have hc : c ≠ slash := fun h => ha.no_slash (by simp [h])
    have hc' : c' ≠ slash := fun h => ha.no_slash (by simp [h])
    rw [cons_append, cons_append, skip_slash_or_dot, if_neg hc, if_neg fun h => hc' h.2]

section
variable (hall : ∀ a ∈ names, IsComponent a)
include hall

theorem skip_slash_or_dot_join : skip_slash_or_dot (join names) = join names := by
  cases names with
  | nil => rfl
  | cons a names =>
    obtain ⟨rest, heq, hr, -⟩ := join_cons_ends a names
    rw [heq]
    exact skip_slash_or_dot_component (hall a (by simp)) hr

/-- A component does not start over with a dot alone. -/
theorem join_ne_dot : join names ≠ [dot] := by
  cases names with
  | nil => exact nofun
  | cons a names =>
    intro h
    have ha := hall a (by simp)
    obtain ⟨rest, heq, -, -⟩ := join_cons_ends a names
    rw [heq] at h
    obtain ⟨c, a, rfl⟩ := exists_cons_of_ne_nil ha.ne_nil
    obtain ⟨rfl, hnil⟩ := cons.inj h
    exact ha.ne_dot (by rw [(append_eq_nil_iff.mp hnil).1])

/-- A component is not absolute. -/
theorem path_is_absolute_join : path_is_absolute (join names) = false := by
  cases names with
  | nil => rfl
  | cons a names =>
    have ha := hall a (by simp)
    obtain ⟨rest, heq, -, -⟩ := join_cons_ends a names
    obtain ⟨c, a, rfl⟩ := exists_cons_of_ne_nil ha.ne_nil
    have hc : c ≠ slash := fun h => ha.no_slash (by simp [h])
    rw [heq]
    exact beq_false_of_ne hc

end

theorem takeWhile_component (ha : slash ∉ a) (hr : Ends rest) :
    (a ++ rest).takeWhile (· != slash) = a := by
  have hall : ∀ c ∈ a, (c != slash) = true := by
    intro c hc
    simpa using fun h : c = slash => ha (h ▸ hc)
  rw [takeWhile_append_of_pos hall]
  rcases hr with rfl | ⟨r, rfl⟩
  · simp
  · simp

theorem dropWhile_component (ha : slash ∉ a) (hr : Ends rest) :
    (a ++ rest).dropWhile (· != slash) = rest := by
  have hall : ∀ c ∈ a, (c != slash) = true := by
    intro c hc
    simpa using fun h : c = slash => ha (h ▸ hc)
  rw [dropWhile_append_of_pos hall]
  rcases hr with rfl | ⟨r, rfl⟩
  · rfl
  · simp

theorem path_find_first_component_slash (p : Text) (accept_dot_dot : Bool) :
    path_find_first_component (slash :: p) accept_dot_dot =
      path_find_first_component p accept_dot_dot := by
  unfold path_find_first_component
  rw [skip_slash_or_dot_slash]

/-- The first component of a path in normal form. -/
theorem path_find_first_component_join (hall : ∀ b ∈ a :: names, IsComponent b) :
    path_find_first_component (join (a :: names)) true = .ok (some a, join names) := by
  have ha := hall a (by simp)
  have hnames : ∀ b ∈ names, IsComponent b := fun b hb => hall b (mem_cons_of_mem a hb)
  obtain ⟨rest, heq, hr, hnext⟩ := join_cons_ends a names
  have hskip : skip_slash_or_dot rest = join names := by
    rcases hnext with ⟨rfl, rfl⟩ | rfl
    · rfl
    · rw [skip_slash_or_dot_slash, skip_slash_or_dot_join hnames]
  unfold path_find_first_component
  simp only
  rw [skip_slash_or_dot_join hall, if_neg (join_cons_ne_nil ha names), if_neg (join_ne_dot hall),
    heq, takeWhile_component ha.no_slash hr, dropWhile_component ha.no_slash hr,
    if_neg (Nat.not_lt.mpr ha.length_le), if_neg (by simp), hskip, if_neg (join_ne_dot hnames)]

/-- What is left does not start with a component that is a dot. -/
theorem skip_slash_or_dot_ne (p r : Text) : skip_slash_or_dot p ≠ dot :: slash :: r := by
  induction p using skip_slash_or_dot.induct with
  | case1 =>
    intro h
    cases h
  | case2 => simp [skip_slash_or_dot]
  | case3 c hc =>
    rw [skip_slash_or_dot, if_neg hc]
    intro h
    cases h
  | case4 c' p ih =>
    exact ih
  | case5 c c' p hc hdot ih =>
    rw [skip_slash_or_dot, if_neg hc, if_pos hdot]
    exact ih
  | case6 c c' p hc hdot =>
    rw [skip_slash_or_dot, if_neg hc, if_neg hdot]
    intro h
    obtain ⟨hc', h⟩ := cons.inj h
    exact hdot ⟨hc', (cons.inj h).1⟩

variable {next : Text}

variable {accept_dot_dot : Bool} {p : Text}

/-- What is found is a component. -/
theorem path_find_first_component_some {name : Text}
    (h : path_find_first_component p accept_dot_dot = .ok (some name, next)) :
    IsComponent name := by
  unfold path_find_first_component at h
  simp only at h
  split at h
  · cases h
  · next hne =>
    split at h
    · cases h
    · next hdot =>
      split at h
      · cases h
      · next hlen =>
        split at h
        · cases h
        · obtain ⟨hname, -⟩ := mk.inj (ok.inj h)
          cases hname
          obtain ⟨c, rest, hcons⟩ := exists_cons_of_ne_nil hne
          have hc := skip_slash_or_dot_head hcons
          refine ⟨?_, ?_, ?_, Nat.not_lt.mp hlen⟩
          · rw [hcons, takeWhile_cons_of_pos (by simpa using hc)]
            exact cons_ne_nil _ _
          · intro hmem
            simpa using mem_takeWhile_imp hmem
          · intro heq
            rw [hcons, takeWhile_cons_of_pos (by simpa using hc)] at heq
            obtain ⟨rfl, hnil⟩ := cons.inj heq
            match rest with
            | [] => exact hdot hcons
            | c' :: rest =>
              by_cases hc' : c' = slash
              · rw [hc'] at hcons
                exact skip_slash_or_dot_ne p rest hcons
              · rw [takeWhile_cons_of_pos (by simpa using hc')] at hnil
                cases hnil

/-- A path in normal form has one list of components. -/
theorem join_inj {names' : List Text} (hall : ∀ a ∈ names, IsComponent a)
    (hall' : ∀ a ∈ names', IsComponent a) (h : join names = join names') : names = names' := by
  induction names generalizing names' with
  | nil =>
    by_contra hne
    exact join_ne_nil hall' (Ne.symm hne) h.symm
  | cons a names ih =>
    match names', hall' with
    | [], _ => exact absurd h (join_cons_ne_nil (hall a (by simp)) names)
    | b :: names', hall' =>
      have hfirst := congrArg (path_find_first_component · true) h
      simp only [path_find_first_component_join hall, path_find_first_component_join hall'] at hfirst
      obtain ⟨hab, hrest⟩ := mk.inj (ok.inj hfirst)
      rw [Option.some.inj hab, ih (fun b hb => hall b (mem_cons_of_mem a hb))
        (fun a ha => hall' a (mem_cons_of_mem b ha)) hrest]

theorem path_is_valid_loop_some {e name : Text} {size : Nat}
    (h : path_find_first_component e accept_dot_dot = .ok (some name, next)) :
    path_is_valid_loop accept_dot_dot size e = if size - next.length ≥ PATH_MAX then false
      else if next = [] then true else path_is_valid_loop accept_dot_dot size next := by
  rw [path_is_valid_loop]
  split
  · next heq =>
    rw [h] at heq
    obtain ⟨-, rfl⟩ := mk.inj (ok.inj heq)
    rfl
  · next hne => exact absurd h (hne _ _)

/-- A path in normal form is valid up to a length. -/
theorem path_is_valid_loop_join (hall : ∀ a ∈ names, IsComponent a) (h : names ≠ [])
    {size : Nat} : path_is_valid_loop true size (join names) = decide (size < PATH_MAX) := by
  induction names with
  | nil => exact absurd rfl h
  | cons a names ih =>
    have hnames : ∀ b ∈ names, IsComponent b := fun b hb => hall b (mem_cons_of_mem a hb)
    rw [path_is_valid_loop_some (path_find_first_component_join hall)]
    by_cases hn : names = []
    · subst hn
      rw [join_nil, if_pos rfl]
      by_cases hs : size < PATH_MAX
      · rw [if_neg (by simpa using hs), decide_eq_true hs]
      · rw [if_pos (by simpa using hs), decide_eq_false hs]
    · rw [if_neg (join_ne_nil hnames hn), ih hnames hn]
      split
      · next hs => exact (decide_eq_false (by omega)).symm
      · rfl

theorem path_is_valid_pathname (absolute : Bool) (hall : ∀ a ∈ names, IsComponent a)
    (h : names ≠ []) :
    path_is_valid (pathname absolute names) = decide ((pathname absolute names).length < PATH_MAX) := by
  have hjoin : ∀ size, path_is_valid_loop true size (pathname absolute names) =
      decide (size < PATH_MAX) := by
    intro size
    cases absolute with
    | false => exact path_is_valid_loop_join hall h
    | true =>
      obtain ⟨a, names, rfl⟩ := exists_cons_of_ne_nil h
      have hfirst : path_find_first_component (pathname true (a :: names)) true =
          .ok (some a, join names) :=
        (path_find_first_component_slash _ _).trans (path_find_first_component_join hall)
      rw [path_is_valid_loop_some hfirst,
        ← path_is_valid_loop_some (path_find_first_component_join hall)]
      exact path_is_valid_loop_join hall h
  have hne : pathname absolute names ≠ [] := by
    intro hnil
    exact join_ne_nil hall h (append_eq_nil_iff.mp hnil).2
  unfold path_is_valid path_is_valid_full
  rw [if_neg hne, hjoin]

/-! ## Section 3: Simplifying -/

variable {absolute add_slash beginning : Bool}

theorem path_simplify_loop_none (h : path_find_first_component p true = .ok (none, next)) :
    path_simplify_loop absolute beginning add_slash p = [] := by
  rw [path_simplify_loop]
  split
  · rfl
  · next heq =>
    rw [h] at heq
    cases (mk.inj (ok.inj heq)).1
  · next hnone _ => exact absurd h (hnone _)

theorem path_simplify_loop_some {e : Text}
    (h : path_find_first_component p true = .ok (some e, next))
    (hdot : (absolute && beginning && e = dot_dot) = false) :
    path_simplify_loop absolute beginning add_slash p =
      (if add_slash then [slash] else []) ++ e ++ path_simplify_loop absolute false true next := by
  rw [path_simplify_loop]
  split
  · next heq =>
    rw [h] at heq
    cases (mk.inj (ok.inj heq)).1
  · next heq =>
    rw [h] at heq
    obtain ⟨he, rfl⟩ := mk.inj (ok.inj heq)
    cases he
    rw [if_neg (by rw [hdot]; exact Bool.false_ne_true)]
  · next _ hsome => exact absurd h (hsome _ _)

/-- A path in normal form is written as it is. -/
theorem path_simplify_loop_join (hall : ∀ a ∈ names, IsComponent a)
    (habs : absolute = true → dot_dot ∉ names) :
    path_simplify_loop absolute beginning add_slash (join names) =
      if names = [] then [] else (if add_slash then [slash] else []) ++ join names := by
  induction names generalizing beginning add_slash with
  | nil =>
    have h : path_find_first_component [] true = .ok (none, []) := rfl
    exact path_simplify_loop_none h
  | cons a names ih =>
    have hnames : ∀ b ∈ names, IsComponent b := fun b hb => hall b (mem_cons_of_mem a hb)
    have hdot : (absolute && beginning && a = dot_dot) = false := by
      cases absolute with
      | false => rfl
      | true =>
        have hne : a ≠ dot_dot := fun h => habs rfl (by simp [h])
        rw [decide_eq_false hne, Bool.and_false]
    have hrest : path_simplify_loop absolute false true (join names) =
        if names = [] then [] else [slash] ++ join names :=
      ih hnames fun h hm => habs h (mem_cons_of_mem a hm)
    rw [path_simplify_loop_some (path_find_first_component_join hall) hdot, hrest,
      if_neg (cons_ne_nil a names)]
    by_cases hn : names = []
    · rw [if_pos hn, hn, join_singleton, append_nil]
    · rw [if_neg hn, join_cons a hn]
      simp

theorem path_simplify_pathname (hall : ∀ a ∈ names, IsComponent a) (h : names ≠ [])
    (habs : absolute = true → dot_dot ∉ names) :
    path_simplify (pathname absolute names) = pathname absolute names := by
  have hjoin := join_ne_nil hall h
  have hne : pathname absolute names ≠ [] := by
    intro hnil
    exact hjoin (append_eq_nil_iff.mp hnil).2
  have hloop : ∀ beginning, path_simplify_loop absolute beginning false (join names) = join names := by
    intro beginning
    rw [path_simplify_loop_join hall habs, if_neg h]
    rfl
  unfold path_simplify
  rw [if_neg hne]
  cases absolute with
  | true =>
    have habsolute : path_is_absolute (pathname true names) = true := rfl
    have htail : (pathname true names).tail = join names := rfl
    simp only [habsolute, if_true, htail, hloop]
    rfl
  | false =>
    have htext : pathname false names = join names := rfl
    have hrelative := path_is_absolute_join hall
    rw [htext]
    simp only [hrelative, Bool.false_eq_true, if_false, hloop]
    rw [if_neg hjoin]

/-! ## Section 4: From the back -/

theorem skip_slash_or_dot_backward_slash (q : Text) :
    skip_slash_or_dot_backward (slash :: q) = skip_slash_or_dot_backward q := by
  cases q with
  | nil => simp [skip_slash_or_dot_backward]
  | cons c q => rw [skip_slash_or_dot_backward, if_pos (.inl rfl)]

/-- From the back a component is not skipped either. -/
theorem skip_slash_or_dot_backward_component (ha : IsComponent a) (hr : Ends rest) :
    skip_slash_or_dot_backward (a.reverse ++ rest) = a.reverse ++ rest := by
  have hno : slash ∉ a.reverse := fun h => ha.no_slash (mem_reverse.mp h)
  have hdot : a.reverse ≠ [dot] := by
    intro h
    have := congrArg reverse h
    rw [reverse_reverse] at this
    exact ha.ne_dot this
  match hrev : a.reverse, hno, hdot with
  | [], _, _ => exact absurd (reverse_eq_nil_iff.mp hrev) ha.ne_nil
  | [c], hno, hdot =>
    have hc : c ≠ slash := fun h => hno (by simp [h])
    have hcdot : c ≠ dot := fun h => hdot (by rw [h])
    rcases hr with rfl | ⟨r, rfl⟩
    · rw [append_nil, skip_slash_or_dot_backward, if_neg (by simp [hc, hcdot])]
    · rw [singleton_append, skip_slash_or_dot_backward, if_neg (by simp [hc, hcdot])]
  | c :: c' :: a, hno, _ =>
    have hc : c ≠ slash := fun h => hno (by simp [h])
    have hc' : c' ≠ slash := fun h => hno (by simp [h])
    rw [cons_append, cons_append, skip_slash_or_dot_backward,
      if_neg (by simp [hc, hc'])]

theorem pathname_concat (absolute : Bool) (a : Text) (h : names ≠ []) :
    pathname absolute (names ++ [a]) = pathname absolute names ++ slash :: a := by
  unfold pathname
  rw [join_concat a h, append_assoc]

/-- A path in normal form, from the back. -/
theorem reverse_pathname (absolute : Bool) (names : List Text) (a : Text) :
    ∃ rest, (pathname absolute (names ++ [a])).reverse = a.reverse ++ rest ∧ Ends rest ∧
      (names = [] ∧ rest = (if absolute then [slash] else []) ∨
        names ≠ [] ∧ rest = slash :: (pathname absolute names).reverse) := by
  by_cases hn : names = []
  · refine ⟨if absolute then [slash] else [], ?_, ?_, .inl ⟨hn, rfl⟩⟩
    · rw [hn, nil_append, pathname, join_singleton, reverse_append]
      cases absolute with
      | true => rfl
      | false => rfl
    · cases absolute with
      | true => exact .inr ⟨[], rfl⟩
      | false => exact .inl rfl
  · refine ⟨slash :: (pathname absolute names).reverse, ?_, .inr ⟨_, rfl⟩, .inr ⟨hn, rfl⟩⟩
    rw [pathname_concat absolute a hn]
    simp

/-- What stands before the last component, up to a slash. -/
theorem skip_before (hall : ∀ b ∈ names, IsComponent b)
    (hrest : names = [] ∧ rest = (if absolute then [slash] else []) ∨ names ≠ [] ∧ rest = slash :: (pathname absolute names).reverse) :
    (skip_slash_or_dot_backward rest).reverse =
      if names = [] then [] else pathname absolute names := by
  rcases hrest with ⟨hn, rfl⟩ | ⟨hn, rfl⟩
  · rw [if_pos hn]
    cases absolute with
    | true => rfl
    | false => rfl
  · obtain ⟨init, b, rfl⟩ := (eq_nil_or_concat names).resolve_left hn
    rw [concat_eq_append] at *
    obtain ⟨rest, heq, hends, -⟩ := reverse_pathname absolute init b
    rw [skip_slash_or_dot_backward_slash, if_neg hn, heq,
      skip_slash_or_dot_backward_component (hall b (by simp)) hends, ← heq, reverse_reverse]

/-- The last component of a path in normal form. -/
theorem path_find_last_component_concat (hall : ∀ b ∈ names ++ [a], IsComponent b) :
    path_find_last_component (pathname absolute (names ++ [a])) false =
      if a = dot_dot then .err .EINVAL
      else .ok (some a, if names = [] then [] else pathname absolute names) := by
  have ha := hall a (by simp)
  have hnames : ∀ b ∈ names, IsComponent b := fun b hb => hall b (mem_append_left _ hb)
  obtain ⟨rest, heq, hends, hrest⟩ := reverse_pathname absolute names a
  have hno : slash ∉ a.reverse := fun h => ha.no_slash (mem_reverse.mp h)
  have hrev : a.reverse ++ rest ≠ [] := by
    intro h
    exact ha.ne_nil (reverse_eq_nil_iff.mp (append_eq_nil_iff.mp h).1)
  have hne : pathname absolute (names ++ [a]) ≠ [] := by
    intro h
    rw [h] at heq
    exact hrev heq.symm
  unfold path_find_last_component
  rw [if_neg hne, heq, skip_slash_or_dot_backward_component ha hends, if_neg hrev,
    takeWhile_component hno hends, dropWhile_component hno hends, reverse_reverse,
    if_neg (Nat.not_lt.mpr ha.length_le), skip_before hnames hrest]
  simp

/-! ## Section 5: The directory, and one component more -/

/-- The root has no directory. -/
theorem path_extract_directory_root :
    path_extract_directory (some (pathname true [])) = .err .EADDRNOTAVAIL := by
  decide

/-- The directory of a path in normal form. -/
theorem path_extract_directory_concat (hall : ∀ b ∈ names ++ [a], IsComponent b)
    (habs : absolute = true → dot_dot ∉ names) :
    path_extract_directory (some (pathname absolute (names ++ [a]))) =
      if a = dot_dot then .err .EINVAL else if names = [] then
        if absolute then .ok (pathname true []) else .err .EDESTADDRREQ
      else if (pathname absolute names).length < PATH_MAX then .ok (pathname absolute names)
      else .err .EINVAL := by
  have hnames : ∀ b ∈ names, IsComponent b := fun b hb => hall b (mem_append_left _ hb)
  have hne : pathname absolute (names ++ [a]) ≠ [] := by
    intro hnil
    exact join_ne_nil hall (by simp) (append_eq_nil_iff.mp hnil).2
  have habsolute : path_is_absolute (pathname absolute (names ++ [a])) = absolute := by
    cases absolute with
    | true => rfl
    | false => exact path_is_absolute_join hall
  unfold path_extract_directory
  simp only
  rw [if_neg hne, path_find_last_component_concat hall]
  by_cases hdot : a = dot_dot
  · rw [if_pos hdot, if_pos hdot]
  · rw [if_neg hdot, if_neg hdot]
    simp only
    by_cases hn : names = []
    · rw [if_pos hn, if_pos hn, habsolute]
      rfl
    · have hbefore : pathname absolute names ≠ [] := by
        intro hnil
        exact join_ne_nil hnames hn (append_eq_nil_iff.mp hnil).2
      rw [if_neg hn, if_neg hbefore, if_neg hn, path_simplify_pathname hnames hn habs,
        path_is_valid_pathname absolute hnames hn]
      simp only [decide_eq_true_eq]

/-- A path in normal form, where there is none for one that is empty. -/
def written (absolute : Bool) (names : List Text) : Option Text :=
  if absolute = false ∧ names = [] then none else some (pathname absolute names)

theorem written_concat (absolute : Bool) (names : List Text) (a : Text) :
    written absolute (names ++ [a]) = some (pathname absolute (names ++ [a])) :=
  if_neg (by simp)

theorem written_absolute (names : List Text) :
    written true names = some (pathname true names) := if_neg (by simp)

/-- A path in normal form does not end in a slash, but for the root. -/
theorem getLast_pathname (hall : ∀ b ∈ names, IsComponent b) (h : names ≠ []) :
    (pathname absolute names).getLast? ≠ some slash := by
  obtain ⟨init, b, rfl⟩ := (eq_nil_or_concat names).resolve_left h
  rw [concat_eq_append] at *
  have hb := hall b (by simp)
  obtain ⟨rest, heq, -, -⟩ := reverse_pathname absolute init b
  rw [← head?_reverse, heq]
  intro hhead
  have hne : b.reverse ≠ [] := fun h => hb.ne_nil (reverse_eq_nil_iff.mp h)
  obtain ⟨c, b', hcons⟩ := exists_cons_of_ne_nil hne
  rw [hcons, cons_append] at hhead
  cases hhead
  exact hb.no_slash (mem_reverse.mp (by rw [hcons]; simp))

/-- One component more. -/
theorem path_extend_written (hall : ∀ b ∈ names, IsComponent b) (ha : IsComponent a) :
    path_extend (written absolute names) a = pathname absolute (names ++ [a]) := by
  have hrelative : path_is_absolute a = false := by
    have h : path_is_absolute (join [a]) = false := path_is_absolute_join (by simpa using ha)
    rwa [join_singleton] at h
  unfold path_extend
  rw [if_neg ha.ne_nil]
  by_cases hn : names = []
  · subst hn
    cases absolute with
    | true => simp [written, pathname]
    | false => simp [written, pathname]
  · have hne : pathname absolute names ≠ [] := by
      intro hnil
      exact join_ne_nil hall hn (append_eq_nil_iff.mp hnil).2
    have hwritten : (written absolute names).getD [] = pathname absolute names := by
      rw [written, if_neg fun h => hn h.2]
      rfl
    rw [hwritten, pathname_concat absolute a hn, if_neg]
    rintro (h | h | h)
    · exact hne h
    · exact getLast_pathname hall hn h
    · rw [hrelative] at h
      cases h

end SdCompat.PathUtil
