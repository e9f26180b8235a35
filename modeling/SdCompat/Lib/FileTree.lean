import Mathlib.Logic.Basic

/-! # File trees that change

    Directories, other files and symbolic links. Each has a directory it is
    in, and in a directory each has one name. What is `Inside` a directory is
    the directory, and what is below it.

    A directory can be moved (`Move`), with all that is below it, if it is not
    moved below itself; `Move.tree` is the tree this gives.

    * `Inside.up`, `Inside.child`: up from what is not the directory itself, and
      down, one stays inside;
    * `Move.inside`: what is inside a directory is still inside, when something
      was moved from inside to inside.
-/

namespace FileTree

variable {ν α τ : Type*}

/-- `Inside parent r n`: up from `n`, by way of `parent`, one comes to `r`. -/
inductive Inside (parent : ν → ν) (r : ν) : ν → Prop where
  | self : Inside parent r r
  | under {n : ν} : Inside parent r (parent n) → Inside parent r n

/-- What something is. -/
inductive Kind (τ : Type*) where
  | directory
  | file
  | link (target : τ)
  deriving DecidableEq

/-- A tree: what is where. The top is in itself. -/
structure Tree (ν α τ : Type*) where
  top : ν
  kind : ν → Kind τ
  parent : ν → ν
  child : ν → α → Option ν
  parent_top : parent top = top
  rooted : ∀ n, Inside parent top n
  directory_parent : ∀ n, kind (parent n) = .directory
  parent_child : ∀ {d c : ν} {a : α}, child d a = some c → parent c = d
  child_inj : ∀ {d c : ν} {a b : α}, child d a = some c → child d b = some c → a = b

section inside
variable {parent : ν → ν} {r n : ν}

/-- Up from what is not the directory itself. -/
theorem Inside.up (h : Inside parent r n) (hne : n ≠ r) : Inside parent r (parent n) := by
  cases h with
  | self => exact absurd rfl hne
  | under h => exact h

end inside

namespace Tree

variable {t : Tree ν α τ} {r d c : ν} {a : α}

/-- The top is inside itself only. -/
theorem inside_top (h : Inside t.parent r t.top) : r = t.top := by
  generalize htop : t.top = n at h
  induction h with
  | self => rfl
  | under _ ih =>
    rw [← htop, t.parent_top] at ih
    rw [← htop]
    exact ih rfl

/-- Down from inside. -/
theorem Inside.child (h : Inside t.parent r d) (hc : t.child d a = some c) :
    Inside t.parent r c := by
  refine .under ?_
  rw [t.parent_child hc]
  exact h

end Tree

/-! ## Moving a directory -/

/-- `Move t d a d' a' c`: the directory `c` can be moved from where it is in `d`
    to `a'` in `d'`. If there is something at `a'`, it is an empty directory,
    which is replaced. -/
structure Move (t : Tree ν α τ) (d : ν) (a : α) (d' : ν) (a' : α) (c : ν) : Prop where
  from_child : t.child d a = some c
  directory : t.kind c = .directory
  to_directory : t.kind d' = .directory
  free : ∀ e, t.child d' a' = some e → t.kind e = .directory ∧ ∀ b, t.child e b = none
  not_below : ¬ Inside t.parent c d'

section moved
variable [DecidableEq ν]

/-- The parents after the move. -/
def moved_parent (t : Tree ν α τ) (d' c : ν) (n : ν) : ν := if n = c then d' else t.parent n

/-- What is in a directory after the move. -/
def moved_child [DecidableEq α] (t : Tree ν α τ) (d : ν) (a : α) (d' : ν) (a' : α) (c : ν) (x : ν) (b : α) :
    Option ν :=
  if x = d' ∧ b = a' then some c else if x = d ∧ b = a then none else t.child x b

variable {t : Tree ν α τ} {d d' c r n : ν} {a a' : α}

/-- What is not below the directory that moves is where it was. -/
theorem inside_of_not_below (h : Inside t.parent r n) (hn : ¬ Inside t.parent c n) :
    Inside (moved_parent t d' c) r n := by
  induction h with
  | self => exact .self
  | @under n _ ih =>
    have hne : n ≠ c := by
      intro heq
      rw [heq] at hn
      exact hn .self
    refine .under ?_
    rw [moved_parent, if_neg hne]
    exact ih fun hc => hn (.under hc)

/-- What is inside stays inside when a directory is moved to inside. -/
theorem inside_moved (hd' : Inside t.parent r d') (hnot : ¬ Inside t.parent c d')
    (h : Inside t.parent r n) : Inside (moved_parent t d' c) r n := by
  induction h with
  | self => exact .self
  | @under n _ ih =>
    refine .under ?_
    by_cases hn : n = c
    · rw [moved_parent, if_pos hn]
      exact inside_of_not_below hd' hnot
    · rw [moved_parent, if_neg hn]
      exact ih

variable [DecidableEq α]

/-- Only where it was moved to is the directory. -/
theorem moved_child_eq (hc : t.child d a = some c) {x : ν} {b : α}
    (h : moved_child t d a d' a' c x b = some c) : x = d' ∧ b = a' := by
  unfold moved_child at h
  split at h
  · next hto => exact hto
  · next hto =>
    split at h
    · cases h
    · next hfrom =>
      have hx : x = d := (t.parent_child h).symm.trans (t.parent_child hc)
      subst hx
      exact absurd ⟨rfl, t.child_inj h hc⟩ hfrom

/-- The tree after the move. -/
def Move.tree (m : Move t d a d' a' c) : Tree ν α τ where
  top := t.top
  kind := t.kind
  parent := moved_parent t d' c
  child := moved_child t d a d' a' c
  parent_top := by
    have hne : t.top ≠ c := by
      intro heq
      exact m.not_below (heq ▸ t.rooted d')
    rw [moved_parent, if_neg hne, t.parent_top]
  rooted := fun n => inside_moved (t.rooted d') m.not_below (t.rooted n)
  directory_parent := by
    intro n
    unfold moved_parent
    split
    · exact m.to_directory
    · exact t.directory_parent n
  parent_child := by
    intro x y b hxy
    by_cases hy : y = c
    · rw [hy] at hxy
      obtain ⟨rfl, -⟩ := moved_child_eq m.from_child hxy
      rw [moved_parent, if_pos hy]
    · rw [moved_parent, if_neg hy]
      unfold moved_child at hxy
      split at hxy
      · exact absurd (Option.some.inj hxy).symm hy
      · split at hxy
        · cases hxy
        · exact t.parent_child hxy
  child_inj := by
    intro x y b b' hb hb'
    by_cases hy : y = c
    · rw [hy] at hb hb'
      rw [(moved_child_eq m.from_child hb).2, (moved_child_eq m.from_child hb').2]
    · unfold moved_child at hb hb'
      split at hb
      · exact absurd (Option.some.inj hb).symm hy
      · split at hb'
        · exact absurd (Option.some.inj hb').symm hy
        · split at hb
          · cases hb
          · split at hb'
            · cases hb'
            · exact t.child_inj hb hb'

/-- What is inside a directory is inside it after something was moved within. -/
theorem Move.inside (m : Move t d a d' a' c) (hd' : Inside t.parent r d')
    (h : Inside t.parent r n) : Inside m.tree.parent r n :=
  inside_moved hd' m.not_below h

/-- `Moved r t t'`: within the directory `r`, directories were moved. -/
inductive Moved (r : ν) : Tree ν α τ → Tree ν α τ → Prop where
  | none (t : Tree ν α τ) : Moved r t t
  | move {t t' : Tree ν α τ} {d d' c : ν} {a a' : α} (m : Move t d a d' a' c)
      (from_inside : Inside t.parent r d) (to_inside : Inside t.parent r d')
      (rest : Moved r m.tree t') : Moved r t t'

variable {t' : Tree ν α τ}

/-- Nothing else changes. -/
theorem Moved.same {t : Tree ν α τ} (h : Moved r t t') : t'.top = t.top ∧ t'.kind = t.kind := by
  induction h with
  | none t => exact ⟨rfl, rfl⟩
  | move m _ _ _ ih => exact ih

theorem Moved.inside {t : Tree ν α τ} (h : Moved r t t') (hn : Inside t.parent r n) :
    Inside t'.parent r n := by
  induction h with
  | none t => exact hn
  | move m _ hto _ ih => exact ih (m.inside hto hn)

end moved

end FileTree
