import SdCompat.Basic.Common

/-! # Paths as texts (path-util.c)

    The functions that take a path apart, from the front and from the back,
    and put one together. A path is the list of its bytes.

    A pointer into a path is what follows it; from the back, it is what stands
    before it and at it, the last byte first, and NULL is the empty list.
-/

namespace SdCompat.PathUtil

open List Outcome

/-! ## Section 1: Model -/

abbrev Text := List UInt8

def slash : UInt8 := 0x2f
def dot : UInt8 := 0x2e

/-- `".."` -/
def dot_dot : Text := [dot, dot]

def NAME_MAX : Nat := 255
def PATH_MAX : Nat := 4096

def path_is_absolute : Text → Bool
  | c :: _ => c == slash
  | [] => false

/-- Past slashes, and past `"./"`. -/
def skip_slash_or_dot : Text → Text
  | [] => []
  | [c] => if c = slash then [] else [c]
  | c :: c' :: p =>
    if c = slash then skip_slash_or_dot (c' :: p)
    else if c = dot ∧ c' = slash then skip_slash_or_dot p
    else c :: c' :: p

/-- `path_find_first_component`: the first component, if there is any, and
    what follows it. -/
def path_find_first_component (p : Text) (accept_dot_dot : Bool) :
    Outcome (Option Text × Text) :=
  let first := skip_slash_or_dot p
  if first = [] then .ok (none, [])
  else if first = [dot] then .ok (none, [])
  else
    let name := first.takeWhile (· != slash)
    if name.length > NAME_MAX then .err .EINVAL
    else if !accept_dot_dot && name = dot_dot then .err .EINVAL
    else
      let next := skip_slash_or_dot (first.dropWhile (· != slash))
      .ok (some name, if next = [dot] then [] else next)

/-- Back over slashes, and over dots that are components. -/
def skip_slash_or_dot_backward : Text → Text
  | [] => []
  | [c] => if c = slash ∨ c = dot then [] else [c]
  | c :: c' :: q =>
    if c = slash ∨ c = dot ∧ c' = slash then skip_slash_or_dot_backward (c' :: q)
    else c :: c' :: q

/-- `path_find_last_component`, on a path looked at for the first time: the last
    component, if there is any, and what stands before it, up to `next`. -/
def path_find_last_component (path : Text) (accept_dot_dot : Bool) :
    Outcome (Option Text × Text) :=
  if path = [] then .ok (none, [])
  else
    let q := skip_slash_or_dot_backward path.reverse
    -- the root directory, "." or "./"
    if q = [] then .ok (none, [])
    else
      let name := (q.takeWhile (· != slash)).reverse
      if name.length > NAME_MAX then .err .EINVAL
      else if !accept_dot_dot && name = dot_dot then .err .EINVAL
      else .ok (some name, (skip_slash_or_dot_backward (q.dropWhile (· != slash))).reverse)

/-- What follows a slash, or `"./"`, is not longer. -/
theorem skip_slash_or_dot_length (p : Text) : (skip_slash_or_dot p).length ≤ p.length := by
  induction p using skip_slash_or_dot.induct with
  | case1 => exact Nat.le_refl _
  | case2 => simp [skip_slash_or_dot]
  | case3 c hc =>
    have h : skip_slash_or_dot [c] = [c] := by rw [skip_slash_or_dot, if_neg hc]
    exact Nat.le_of_eq (congrArg length h)
  | case4 c' p ih =>
    exact Nat.le_succ_of_le ih
  | case5 c c' p hc hdot ih =>
    rw [skip_slash_or_dot, if_neg hc, if_pos hdot]
    simp only [length_cons]
    omega
  | case6 c c' p hc hdot =>
    have h : skip_slash_or_dot (c :: c' :: p) = c :: c' :: p := by
      rw [skip_slash_or_dot, if_neg hc, if_neg hdot]
    exact Nat.le_of_eq (congrArg length h)

variable {p : Text}

/-- What is left does not start with a slash. -/
theorem skip_slash_or_dot_head {c : UInt8} {rest : Text} (h : skip_slash_or_dot p = c :: rest) :
    c ≠ slash := by
  induction p using skip_slash_or_dot.induct with
  | case1 => cases h
  | case2 => simp [skip_slash_or_dot] at h
  | case3 c' hc =>
    rw [skip_slash_or_dot, if_neg hc] at h
    obtain ⟨rfl, -⟩ := cons.inj h
    exact hc
  | case4 c' p ih =>
    exact ih h
  | case5 c' c'' p hc hdot ih =>
    rw [skip_slash_or_dot, if_neg hc, if_pos hdot] at h
    exact ih h
  | case6 c' c'' p hc hdot =>
    rw [skip_slash_or_dot, if_neg hc, if_neg hdot] at h
    obtain ⟨rfl, -⟩ := cons.inj h
    exact hc

variable {accept_dot_dot : Bool}

/-- What follows a component is shorter. -/
theorem path_find_first_component_length {name next : Text}
    (h : path_find_first_component p accept_dot_dot = .ok (some name, next)) :
    next.length < p.length := by
  unfold path_find_first_component at h
  simp only at h
  split at h
  · cases h
  · next hne =>
    split at h
    · cases h
    · split at h
      · cases h
      · split at h
        · cases h
        · obtain ⟨c, rest, hcons⟩ := exists_cons_of_ne_nil hne
          have hc := skip_slash_or_dot_head hcons
          obtain ⟨-, rfl⟩ := Prod.mk.inj (ok.inj h)
          have hdrop : (skip_slash_or_dot p).dropWhile (· != slash) =
              rest.dropWhile (· != slash) := by
            rw [hcons, dropWhile_cons_of_pos (by simpa using hc)]
          have hlt : (skip_slash_or_dot (rest.dropWhile (· != slash))).length < p.length := by
            calc (skip_slash_or_dot (rest.dropWhile (· != slash))).length
              _ ≤ (rest.dropWhile (· != slash)).length := skip_slash_or_dot_length _
              _ ≤ rest.length := (dropWhile_suffix _).length_le
              _ < (c :: rest).length := Nat.lt_succ_self _
              _ = (skip_slash_or_dot p).length := by rw [hcons]
              _ ≤ p.length := skip_slash_or_dot_length p
          rw [hdrop]
          split
          · exact Nat.lt_of_le_of_lt (Nat.zero_le _) hlt
          · exact hlt

/-- After no component nothing follows. -/
theorem path_find_first_component_none {next : Text}
    (h : path_find_first_component p accept_dot_dot = .ok (none, next)) : next = [] := by
  unfold path_find_first_component at h
  simp only at h
  split at h
  · exact (Prod.mk.inj (ok.inj h)).2.symm
  · split at h
    · exact (Prod.mk.inj (ok.inj h)).2.symm
    · split at h
      · cases h
      · split at h
        · cases h
        · cases (Prod.mk.inj (ok.inj h)).1

/-- The loop of `path_is_valid_full`, for a path of `size` bytes. -/
def path_is_valid_loop (accept_dot_dot : Bool) (size : Nat) (e : Text) : Bool :=
  match _h : path_find_first_component e accept_dot_dot with
  | .ok (_first, next) =>
    if size - next.length ≥ PATH_MAX then false
    else if _hnext : next = [] then true
    else path_is_valid_loop accept_dot_dot size next
  | _ => false
termination_by e.length
decreasing_by
  match _first with
  | none => exact absurd (path_find_first_component_none _h) _hnext
  | some name => exact path_find_first_component_length _h

def path_is_valid_full (p : Text) (accept_dot_dot : Bool) : Bool :=
  if p = [] then false else path_is_valid_loop accept_dot_dot p.length p

def path_is_valid (p : Text) : Bool := path_is_valid_full p true

/-- The loop of `path_simplify`: what it writes. -/
def path_simplify_loop (absolute beginning add_slash : Bool) (p : Text) : Text :=
  match _h : path_find_first_component p true with
  | .ok (none, _) => []
  | .ok (some e, next) =>
    -- at the beginning of an absolute path, ".." is skipped
    if absolute && beginning && e = dot_dot then
      path_simplify_loop absolute beginning add_slash next
    else
      (if add_slash then [slash] else []) ++ e ++ path_simplify_loop absolute false true next
  -- what is invalid is kept as it is
  | _ => (if add_slash then [slash] else []) ++ p
termination_by p.length
decreasing_by all_goals exact path_find_first_component_length _h

def path_simplify (path : Text) : Text :=
  if path = [] then []
  else
    let f :=
      if path_is_absolute path then slash :: path_simplify_loop true true false path.tail
      else path_simplify_loop false true false path
    if f = [] then [dot] else f

/-- `path_extract_directory` -/
def path_extract_directory (path : Option Text) : Outcome Text :=
  match path with
  | none => .err .EINVAL
  | some path =>
    if path = [] then .err .EINVAL
    else
      match path_find_last_component path false with
      | .ok (none, _) => .err .EADDRNOTAVAIL
      | .ok (some _, before) =>
        if before = [] then
          if path_is_absolute path then .ok [slash] else .err .EDESTADDRREQ
        else if path_is_valid (path_simplify before) then .ok (path_simplify before)
        else .err .EINVAL
      | .err e => .err e
      | .abort => .abort

/-- `path_extend`, with one text. -/
def path_extend (x : Option Text) (p : Text) : Text :=
  let x := x.getD []
  if p = [] then x
  else if x = [] ∨ x.getLast? = some slash ∨ path_is_absolute p then x ++ p
  else x ++ slash :: p

/-- `empty_or_root` -/
def empty_or_root (path : Option Text) : Bool :=
  match path with
  | none => true
  | some p =>
    p = [] || path_is_absolute p &&
      match path_find_first_component p true with
      | .ok (none, _) => true
      | _ => false

end SdCompat.PathUtil
