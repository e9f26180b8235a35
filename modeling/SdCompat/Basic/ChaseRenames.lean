import SdCompat.Basic.Chase
import SdCompat.Basic.PathText

/-! # Chasing a path while directories are moved (chase.c)

    The loop of `chaseat`, and another process that moves directories within
    the root, in any order. The other process can make the directory that is
    open lie deeper than the path to it says.

    * `Kept`: what is open is inside the root, and the path is in normal form;
    * `chase_step_kept`: a step keeps that;
    * `chase_step_abort`: when a step fails an assertion;
    * `run_count`: how many steps there are;
    * `chase_renames_iff`: what holds of every run, and what goes wrong.
-/

namespace SdCompat.Chase

open FileTree PathUtil Transition List Outcome Option Bool Prod

variable {ν : Type}

/-! ## Section 1: The system -/

/-- What can happen: another process moves a directory, the loop makes a step,
    or it gives up. -/
inductive Event where
  | rename
  | step
  | give_up
  deriving DecidableEq

/-- Where the call is. -/
inductive Progress (ν : Type) where
  | running (l : ChaseLoop ν)
  | returned (r : Outcome (ν × Option Text))

structure World (ν : Type) where
  files : Files ν
  progress : Progress ν

/-- What a step of the loop leads to. -/
def iterate [DecidableEq ν] (c : ChaseArgs ν) (t t' : Files ν) (l : ChaseLoop ν) : Progress ν :=
  match chase_step c t t' l with
  | .ok (some l') => .running l'
  | .ok none => .returned (chase_finish c t' l)
  | .err e => .returned (.err e)
  | .abort => .returned .abort

/-- The loop among other processes. Directories are also moved while it makes
    a step. -/
def system [DecidableEq ν] (c : ChaseArgs ν) : System (World ν) Event where
  init := fun _ => True
  step := fun w e w' =>
    match e with
    | .rename => Moved c.root w.files w'.files ∧ w'.progress = w.progress
    | .step => ∃ l, w.progress = .running l ∧ l.n_steps ≤ CHASE_MAX ∧
        Moved c.root w.files w'.files ∧ w'.progress = iterate c w.files w'.files l
    | .give_up => ∃ l, w.progress = .running l ∧ l.n_steps > CHASE_MAX ∧
        w'.files = w.files ∧ w'.progress = .returned (.err .ELOOP)

/-! ## Section 2: What the loop keeps -/

/-- What `chaseat` makes of its arguments. -/
structure Rooted (c : ChaseArgs ν) (t : Files ν) : Prop where
  no_root : c.root_fd = .XAT_FDROOT → c.root = t.top
  root : c.root_fd ≠ .XAT_FDROOT → c.root ≠ t.top

/-- The path is in normal form. -/
structure Normal (c : ChaseArgs ν) (l : ChaseLoop ν) (names : List Text) : Prop where
  component : ∀ a ∈ names, IsComponent a
  done : l.done = written l.need_absolute names
  absolute : l.need_absolute = true → dot_dot ∉ names
  apart : l.need_absolute = true → c.root_fd = .XAT_FDROOT ∨ c.dir_fd ≠ c.root_fd

/-- What holds between the steps. -/
structure Kept (c : ChaseArgs ν) (t : Files ν) (l : ChaseLoop ν) : Prop where
  inside : Inside t.parent c.root l.fd
  normal : ∃ names, Normal c l names

theorem isComponent_dot_dot : IsComponent dot_dot where
  ne_nil := by decide
  no_slash := by decide
  ne_dot := by decide
  length_le := by decide

/-! ### The way up -/

/-- What is left of the path on the way up, before `".."` is added. -/
def staying (names : List Text) : List Text :=
  if names.getLast? = some dot_dot then names else names.dropLast

/-- The path on the way up. -/
def going_up (names : List Text) : List Text :=
  if names = [] ∨ names.getLast? = some dot_dot then names ++ [dot_dot] else names.dropLast

theorem staying_concat (names : List Text) {a : Text} (h : a ≠ dot_dot) :
    staying (names ++ [a]) = names := by
  unfold staying
  rw [getLast?_concat, if_neg fun heq => h (some.inj heq), dropLast_concat]

theorem going_up_concat (names : List Text) {a : Text} (h : a ≠ dot_dot) :
    going_up (names ++ [a]) = names := by
  unfold going_up
  rw [getLast?_concat, if_neg, dropLast_concat]
  rintro (hnil | heq)
  · exact append_ne_nil_of_right_ne_nil names (cons_ne_nil a []) hnil
  · exact h (some.inj heq)

section up
variable {c : ChaseArgs ν} {l : ChaseLoop ν} {fd_parent : ν} {names : List Text}

/-- A path that is taken to the directory above stays in normal form. -/
theorem Normal.up (h : Normal c l names) (hne : l.need_absolute = true → names ≠ []) :
    Normal c { l with fd := fd_parent, done := written l.need_absolute (going_up names) }
      (going_up names) := by
  have hmem : ∀ a ∈ going_up names, a ∈ names ∨ a = dot_dot := by
    intro a ha
    unfold going_up at ha
    split at ha
    · rcases mem_append.mp ha with ha | ha
      · exact .inl ha
      · exact .inr (mem_singleton.mp ha)
    · exact .inl (dropLast_subset names ha)
  refine ⟨?_, rfl, ?_, h.apart⟩
  · intro a ha
    rcases hmem a ha with ha | rfl
    · exact h.component a ha
    · exact isComponent_dot_dot
  · intro hneed hdot
    have hno := h.absolute hneed
    unfold going_up at hdot
    rw [if_neg] at hdot
    · exact hno (dropLast_subset names hdot)
    · rintro (hnil | hlast)
      · exact hne hneed hnil
      · exact hno (mem_of_getLast? hlast)

/-- A relative path that ends in `".."` gets one more. -/
theorem chase_parent_dot_dot (h : Normal c l (names ++ [dot_dot])) :
    chase_parent l fd_parent =
      if l.need_absolute = true ∧ names ++ [dot_dot] = [] then .abort
      else if (pathname l.need_absolute (staying (names ++ [dot_dot]))).length < PATH_MAX then
        .ok { l with
          fd := fd_parent, done := written l.need_absolute (going_up (names ++ [dot_dot])) }
      else if l.need_absolute then .abort else .err .EINVAL := by
  have hneed : l.need_absolute = false := by
    rw [eq_false_iff]
    intro hneed
    exact h.absolute hneed (by simp)
  have hdone : l.done = some (pathname false (names ++ [dot_dot])) := by
    rw [h.done, hneed, written_concat]
  have hextract : path_extract_directory l.done = .err .EINVAL := by
    rw [hdone, path_extract_directory_concat h.component Bool.noConfusion, if_pos rfl]
  have hvalid := path_is_valid_pathname false h.component (by simp)
  have hne : pathname false (names ++ [dot_dot]) ≠ [] := by
    intro hnil
    exact join_ne_nil h.component (by simp) (append_eq_nil_iff.mp hnil).2
  have hextend : path_extend l.done dot_dot = pathname false (names ++ [dot_dot] ++ [dot_dot]) := by
    rw [hdone, ← written_concat]
    exact path_extend_written h.component isComponent_dot_dot
  have hstay : staying (names ++ [dot_dot]) = names ++ [dot_dot] := if_pos getLast?_concat
  have hup : going_up (names ++ [dot_dot]) = names ++ [dot_dot] ++ [dot_dot] :=
    if_pos (.inr getLast?_concat)
  rw [if_neg fun hand => append_ne_nil_of_right_ne_nil _ (cons_ne_nil _ _) hand.2]
  unfold chase_parent
  rw [hextract, hneed, hstay, hup, hextend]
  simp only [false_eq_true, if_false]
  rw [hdone, getD_some, hvalid]
  by_cases hlen : (pathname false (names ++ [dot_dot])).length < PATH_MAX
  · rw [if_neg (by simp [hlen]), if_pos hlen, written_concat]
  · rw [if_pos ⟨hne, decide_eq_false hlen⟩, if_neg hlen]

/-- The last component is taken off, if it is a name. -/
theorem chase_parent_name {a : Text} (h : Normal c l (names ++ [a])) (ha : a ≠ dot_dot) :
    chase_parent l fd_parent =
      if l.need_absolute = true ∧ names ++ [a] = [] then .abort
      else if (pathname l.need_absolute (staying (names ++ [a]))).length < PATH_MAX then
        .ok { l with fd := fd_parent, done := written l.need_absolute (going_up (names ++ [a])) }
      else if l.need_absolute then .abort else .err .EINVAL := by
  have hdone : l.done = some (pathname l.need_absolute (names ++ [a])) := by
    rw [h.done, written_concat]
  have hextract := path_extract_directory_concat h.component fun hneed hmem =>
    h.absolute hneed (mem_append_left _ hmem)
  rw [← hdone, if_neg ha] at hextract
  rw [if_neg (by simp), staying_concat names ha, going_up_concat names ha]
  unfold chase_parent
  rw [hextract]
  by_cases hn : names = []
  · subst hn
    cases hneed : l.need_absolute with
    | true => rfl
    | false => rfl
  · rw [if_neg hn]
    by_cases hlen : (pathname l.need_absolute names).length < PATH_MAX
    · have hwritten : written l.need_absolute names = some (pathname l.need_absolute names) :=
        if_neg fun hand => hn hand.2
      have habs : (l.need_absolute && !path_is_absolute (pathname l.need_absolute names)) = false := by
        cases l.need_absolute with
        | true => rfl
        | false => rfl
      rw [if_pos hlen, if_pos hlen]
      simp only [habs, false_eq_true, if_false, hwritten]
    · rw [if_neg hlen, if_neg hlen]
      cases hneed : l.need_absolute with
      | true => rfl
      | false =>
        -- the whole path is too long as well
        rw [hneed] at hlen hdone
        have hvalid := path_is_valid_pathname false h.component (by simp)
        have hne : pathname false (names ++ [a]) ≠ [] := by
          intro hnil
          exact join_ne_nil h.component (by simp) (append_eq_nil_iff.mp hnil).2
        have hlong : ¬ (pathname false (names ++ [a])).length < PATH_MAX := by
          rw [pathname_concat false a hn, length_append]
          omega
        simp only [false_eq_true, if_false]
        rw [hdone, getD_some, hvalid, if_pos ⟨hne, decide_eq_false hlong⟩]

/-- What becomes of the path on the way up. -/
theorem chase_parent_eq (h : Normal c l names) :
    chase_parent l fd_parent =
      if l.need_absolute = true ∧ names = [] then .abort
      else if (pathname l.need_absolute (staying names)).length < PATH_MAX then
        .ok { l with fd := fd_parent, done := written l.need_absolute (going_up names) }
      else if l.need_absolute then .abort else .err .EINVAL := by
  rcases eq_nil_or_concat names with rfl | ⟨init, a, rfl⟩
  · -- nothing is written but perhaps the root
    have hdone := h.done
    cases hneed : l.need_absolute with
    | true =>
      rw [hneed] at hdone
      rw [if_pos ⟨rfl, rfl⟩]
      unfold chase_parent
      rw [hdone, written_absolute, path_extract_directory_root]
    | false =>
      have hshort : (pathname false (staying [])).length < PATH_MAX := by decide
      unfold chase_parent
      rw [hdone, hneed]
      rfl
  · rw [concat_eq_append] at *
    by_cases ha : a = dot_dot
    · subst ha
      exact chase_parent_dot_dot h
    · exact chase_parent_name h ha

end up

/-! ## Section 3: A step -/

section step
variable {c : ChaseArgs ν} {t t' : Files ν} {l l' : ChaseLoop ν} {first : Text}

/-- With one more name the path is in normal form. -/
theorem Normal.down {names : List Text} {child : ν} (h : Normal c l names)
    (hfirst : IsComponent first) (hdot : first ≠ dot_dot) :
    Normal c { l with fd := child, done := some (path_extend l.done first) }
      (names ++ [first]) := by
  refine ⟨?_, ?_, ?_, h.apart⟩
  · intro a ha
    rcases mem_append.mp ha with ha | ha
    · exact h.component a ha
    · rw [mem_singleton.mp ha]
      exact hfirst
  · rw [h.done, path_extend_written h.component hfirst, written_concat]
  · intro hneed hmem
    rcases mem_append.mp hmem with hmem | hmem
    · exact h.absolute hneed hmem
    · exact hdot (mem_singleton.mp hmem).symm

/-- A link keeps what is kept. -/
theorem chase_link_kept {destination : Text} (h : Kept c t l)
    (hok : chase_link c l destination = .ok l') : Kept c t l' ∧ l'.n_steps = l.n_steps := by
  unfold chase_link at hok
  split at hok
  · cases hok
  · split at hok
    · obtain rfl := ok.inj hok
      refine ⟨⟨.self, [], nofun, ?_, nofun, ?_⟩, rfl⟩
      · cases (l.need_absolute || c.dir_fd ≠ c.root_fd : Bool) with
        | true => rfl
        | false => rfl
      · intro hneed
        by_cases hapart : c.dir_fd = c.root_fd
        · have hold : l.need_absolute = true := by simpa [hapart] using hneed
          obtain ⟨names, hnormal⟩ := h.normal
          exact hnormal.apart hold
        · exact .inr hapart
    · obtain rfl := ok.inj hok
      obtain ⟨names, hnormal⟩ := h.normal
      exact ⟨⟨h.inside, names, hnormal.component, hnormal.done, hnormal.absolute, hnormal.apart⟩,
        rfl⟩

theorem openat_ok {fd child : ν} (h : openat t fd first = .ok child) :
    t.child fd first = some child := by
  unfold openat at h
  split at h
  · split at h
    · next hchild =>
      rw [hchild, ok.inj h]
    · cases h
  · cases h

/-- What is kept does not depend on what is left of the path. -/
theorem Kept.with_todo (h : Kept c t l) (n_steps : Nat) (todo : Text) :
    Kept c t { l with n_steps, todo } := by
  obtain ⟨names, hnormal⟩ := h.normal
  exact ⟨h.inside, names, hnormal.component, hnormal.done, hnormal.absolute, hnormal.apart⟩

/-- The loop ends where it is, and without an assertion. -/
theorem chase_finish_kept (h : Kept c t l) : chase_finish c t l ≠ .abort ∧
      ∀ fd path, chase_finish c t l = .ok (fd, path) → Inside t.parent c.root fd := by
  obtain ⟨names, hnormal⟩ := h.normal
  have hdone : l.done = none → l.need_absolute = false := by
    intro hnone
    rw [hnormal.done] at hnone
    unfold written at hnone
    split at hnone
    · next hand => exact hand.1
    · cases hnone
  unfold chase_finish
  split
  · exact ⟨nofun, nofun⟩
  · split
    · split
      · next hnone =>
        rw [hdone hnone]
        refine ⟨nofun, ?_⟩
        intro fd path heq
        obtain ⟨rfl, -⟩ := mk.inj (ok.inj heq)
        exact h.inside
      · refine ⟨nofun, ?_⟩
        intro fd path heq
        obtain ⟨rfl, -⟩ := mk.inj (ok.inj heq)
        exact h.inside
    · refine ⟨nofun, ?_⟩
      intro fd path heq
      obtain ⟨rfl, -⟩ := mk.inj (ok.inj heq)
      exact h.inside

variable [DecidableEq ν]

/-- The way up is taken, or leads nowhere, or there is none. -/
theorem chase_up_cases (hr : Rooted c t) (l : ChaseLoop ν) :
    chase_up c t l = .ok l ∨ chase_up c t l = .err .ENOTDIR ∨
      t.kind l.fd = .directory ∧ l.fd ≠ c.root ∧
        chase_up c t l = chase_parent l (t.parent l.fd) := by
  unfold chase_up openat_parent
  split
  · exact .inl rfl
  · next hnot =>
    split
    · next hdir =>
      rw [ok_bind]
      split
      · exact .inl rfl
      · next hpar =>
        refine .inr (.inr ⟨hdir, ?_, rfl⟩)
        intro hroot
        by_cases hno : c.root_fd = .XAT_FDROOT
        · have htop : l.fd = t.top := hroot.trans (hr.no_root hno)
          exact hpar ⟨by rw [htop, t.parent_top], htop⟩
        · refine hnot ⟨hno, ?_⟩
          simp [is_root, hroot]
    · exact .inr (.inl rfl)

/-- With an absolute path, it is taken from everywhere but the root. -/
theorem chase_up_of_need (hr : Rooted c t) (h : Kept c t l) (hneed : l.need_absolute = true)
    (hdir : t.kind l.fd = .directory) (hne : l.fd ≠ c.root) :
    chase_up c t l = chase_parent l (t.parent l.fd) := by
  obtain ⟨names, hnormal⟩ := h.normal
  have hroot : ¬ (c.root_fd ≠ .XAT_FDROOT ∧ is_root c l = true) := by
    intro hand
    have hapart := (hnormal.apart hneed).resolve_left hand.1
    have hfalse : is_root c l = false := by simp [is_root, hne, hapart.symm]
    rw [hfalse] at hand
    exact false_ne_true hand.2
  have htop : ¬ (t.parent l.fd = l.fd ∧ l.fd = t.top) := by
    intro hand
    by_cases hno : c.root_fd = .XAT_FDROOT
    · exact hne (hand.2.trans (hr.no_root hno).symm)
    · have hinside := h.inside
      rw [hand.2] at hinside
      exact hr.root hno (Tree.inside_top hinside)
  unfold chase_up openat_parent
  rw [if_neg hroot, if_pos hdir, ok_bind, if_neg htop]

/-- The way up keeps what is kept. -/
theorem chase_up_kept (hr : Rooted c t) (h : Kept c t l) (hok : chase_up c t l = .ok l') :
    Kept c t l' ∧ l'.n_steps = l.n_steps := by
  rcases chase_up_cases hr l with heq | heq | ⟨-, hne, heq⟩
  · rw [heq] at hok
    obtain rfl := ok.inj hok
    exact ⟨h, rfl⟩
  · rw [heq] at hok
    cases hok
  · obtain ⟨names, hnormal⟩ := h.normal
    rw [heq, chase_parent_eq hnormal] at hok
    split at hok
    · cases hok
    · next hnot =>
      split at hok
      · obtain rfl := ok.inj hok
        exact ⟨⟨h.inside.up hne, _, hnormal.up fun hneed hnil => hnot ⟨hneed, hnil⟩⟩, rfl⟩
      · split at hok
        · cases hok
        · cases hok

/-- What is kept when directories are moved. -/
theorem Kept.moved (h : Kept c t l) (hm : Moved c.root t t') : Kept c t' l :=
  ⟨hm.inside h.inside, h.normal⟩

/-- The way down keeps what is kept. -/
theorem chase_down_kept (h : Kept c t l) (hm : Moved c.root t t') (hfirst : IsComponent first)
    (hdot : first ≠ dot_dot) (hok : chase_down c t t' l first = .ok l') :
    Kept c t' l' ∧ l'.n_steps = l.n_steps := by
  obtain ⟨child, hchild, hok⟩ := bind_eq_ok.mp hok
  obtain ⟨names, hnormal⟩ := h.normal
  have hinside : Inside t.parent c.root child := Tree.Inside.child h.inside (openat_ok hchild)
  have hdown : Normal c { l with fd := child, done := some (path_extend l.done first) }
      (names ++ [first]) := hnormal.down hfirst hdot
  cases hkind : t.kind child with
  | link target =>
    rw [hkind] at hok
    obtain ⟨destination, -, hlink⟩ := bind_eq_ok.mp hok
    exact chase_link_kept (h.moved hm) hlink
  | directory =>
    rw [hkind] at hok
    obtain rfl := ok.inj hok
    exact ⟨⟨hm.inside hinside, _, hdown⟩, rfl⟩
  | file =>
    rw [hkind] at hok
    obtain rfl := ok.inj hok
    exact ⟨⟨hm.inside hinside, _, hdown⟩, rfl⟩

/-- A step keeps what is kept. -/
theorem chase_step_kept (hr : Rooted c t) (h : Kept c t l) (hm : Moved c.root t t')
    (hok : chase_step c t t' l = .ok (some l')) : Kept c t' l' ∧ l'.n_steps = l.n_steps + 1 := by
  unfold chase_step at hok
  split at hok
  · cases hok
  · next first todo hfirst =>
    obtain ⟨l'', hstep, hok⟩ := bind_eq_ok.mp hok
    obtain rfl := some.inj (ok.inj hok)
    have htodo := h.with_todo (l.n_steps + 1) todo
    unfold chase_component at hstep
    split at hstep
    · obtain ⟨hkept, hn⟩ := chase_up_kept hr htodo hstep
      exact ⟨hkept.moved hm, hn⟩
    · next hdot =>
      exact chase_down_kept htodo hm (path_find_first_component_some hfirst) hdot hstep
  · cases hok
  · cases hok

end step

/-! ## Section 4: Assertions -/

/-- `".."` comes next. -/
def UpNext (l : ChaseLoop ν) : Prop :=
  ∃ todo, path_find_first_component l.todo true = .ok (some dot_dot, todo)

/-- The path has a last component, and what stands before it is short enough. -/
def Recorded (done : Option Text) : Prop :=
  ∃ names a, (∀ b ∈ names ++ [a], IsComponent b) ∧ done = some (pathname true (names ++ [a])) ∧
    (pathname true names).length < PATH_MAX

/-- When the way up is taken from below the root, and the path is absolute, then
    the path says so. -/
def Ready (c : ChaseArgs ν) (w : World ν) : Prop :=
  ∀ l, w.progress = .running l → l.need_absolute = true → UpNext l →
    w.files.kind l.fd = .directory → l.fd ≠ c.root → Recorded l.done

section abort
variable {c : ChaseArgs ν} {t t' : Files ν} {l : ChaseLoop ν} {names : List Text} {first : Text}

theorem recorded_iff (h : Normal c l names) (hneed : l.need_absolute = true) :
    Recorded l.done ↔ names ≠ [] ∧ (pathname true names.dropLast).length < PATH_MAX := by
  have hdone : l.done = some (pathname true names) := by rw [h.done, hneed, written_absolute]
  constructor
  · rintro ⟨init, a, hall, heq, hlen⟩
    rw [hdone] at heq
    have hjoin : join names = join (init ++ [a]) := append_cancel_left (some.inj heq)
    obtain rfl := join_inj h.component hall hjoin
    rw [dropLast_concat]
    exact ⟨by simp, hlen⟩
  · rintro ⟨hne, hlen⟩
    have hconcat := dropLast_append_getLast hne
    refine ⟨names.dropLast, names.getLast hne, ?_, ?_, hlen⟩
    · rw [hconcat]
      exact h.component
    · rw [hconcat, hdone]

theorem chase_parent_abort_iff {fd_parent : ν} (h : Normal c l names) :
    chase_parent l fd_parent = .abort ↔ l.need_absolute = true ∧ ¬ Recorded l.done := by
  rw [chase_parent_eq h]
  cases hneed : l.need_absolute with
  | false =>
    rw [if_neg fun hand => Bool.false_ne_true hand.1]
    constructor
    · intro habort
      split at habort
      · cases habort
      · cases habort
    · intro hand
      exact absurd hand.1 Bool.false_ne_true
  | true =>
    have hlast : names.getLast? ≠ some dot_dot := fun hsome =>
      h.absolute hneed (mem_of_getLast? hsome)
    have hstay : staying names = names.dropLast := if_neg hlast
    rw [recorded_iff h hneed, hstay]
    by_cases hn : names = []
    · rw [if_pos ⟨rfl, hn⟩]
      exact ⟨fun _ => ⟨rfl, fun hand => hand.1 hn⟩, fun _ => rfl⟩
    · rw [if_neg fun hand => hn hand.2]
      by_cases hlen : (pathname true names.dropLast).length < PATH_MAX
      · rw [if_pos hlen]
        exact ⟨nofun, fun hand => absurd ⟨hn, hlen⟩ hand.2⟩
      · rw [if_neg hlen]
        exact ⟨fun _ => ⟨rfl, fun hand => hlen hand.2⟩, fun _ => rfl⟩

theorem path_find_first_component_ne_abort (p : Text) (accept_dot_dot : Bool) :
    path_find_first_component p accept_dot_dot ≠ .abort := by
  unfold path_find_first_component
  simp only
  split
  · exact nofun
  · split
    · exact nofun
    · split
      · exact nofun
      · split
        · exact nofun
        · exact nofun

theorem openat_ne_abort (fd : ν) : openat t fd first ≠ .abort := by
  unfold openat
  split
  · split
    · exact nofun
    · exact nofun
  · exact nofun

theorem readlinkat_malloc_ne_abort (fd : ν) : readlinkat_malloc t fd first ≠ .abort := by
  intro habort
  rcases bind_eq_abort.mp habort with hopen | ⟨child, -, habort⟩
  · exact openat_ne_abort fd hopen
  · split at habort
    · cases habort
    · cases habort

theorem chase_link_ne_abort (destination : Text) : chase_link c l destination ≠ .abort := by
  unfold chase_link
  split
  · exact nofun
  · split
    · exact nofun
    · exact nofun

theorem chase_down_ne_abort : chase_down c t t' l first ≠ .abort := by
  intro habort
  rcases bind_eq_abort.mp habort with hopen | ⟨child, -, habort⟩
  · exact openat_ne_abort l.fd hopen
  · split at habort
    · rcases bind_eq_abort.mp habort with hread | ⟨destination, -, hlink⟩
      · exact readlinkat_malloc_ne_abort l.fd hread
      · exact chase_link_ne_abort destination hlink
    · cases habort

variable [DecidableEq ν]

/-- When a step fails an assertion. -/
theorem chase_step_abort_iff (hr : Rooted c t) (h : Kept c t l) : chase_step c t t' l = .abort ↔
      l.need_absolute = true ∧ UpNext l ∧ t.kind l.fd = .directory ∧ l.fd ≠ c.root ∧
        ¬ Recorded l.done := by
  constructor
  · intro habort
    unfold chase_step at habort
    split at habort
    · cases habort
    · next first todo hfirst =>
      have htodo := h.with_todo (l.n_steps + 1) todo
      rcases bind_eq_abort.mp habort with hcomponent | ⟨_, _, hok⟩
      · unfold chase_component at hcomponent
        split at hcomponent
        · next hdot =>
          subst hdot
          rcases chase_up_cases hr { l with todo, n_steps := l.n_steps + 1 } with
            heq | heq | ⟨hdir, hne, heq⟩
          · rw [heq] at hcomponent
            cases hcomponent
          · rw [heq] at hcomponent
            cases hcomponent
          · obtain ⟨names, hnormal⟩ := htodo.normal
            rw [heq] at hcomponent
            obtain ⟨hneed, hnot⟩ := (chase_parent_abort_iff hnormal).mp hcomponent
            exact ⟨hneed, ⟨todo, hfirst⟩, hdir, hne, hnot⟩
        · exact absurd hcomponent chase_down_ne_abort
      · cases hok
    · cases habort
    · next hfirst => exact absurd hfirst (path_find_first_component_ne_abort _ _)
  · rintro ⟨hneed, ⟨todo, hfirst⟩, hdir, hne, hnot⟩
    have htodo := h.with_todo (l.n_steps + 1) todo
    obtain ⟨names, hnormal⟩ := htodo.normal
    unfold chase_step chase_component
    rw [hfirst]
    simp only
    rw [if_pos trivial, chase_up_of_need hr htodo hneed hdir hne,
      (chase_parent_abort_iff hnormal).mpr ⟨hneed, hnot⟩]
    rfl

end abort

/-! ## Section 5: Runs -/

section runs
variable [DecidableEq ν] {c : ChaseArgs ν} {w w' w'' : World ν} {e : Event} {es : List Event}

/-- What holds of every state. -/
structure Held (c : ChaseArgs ν) (w : World ν) : Prop where
  rooted : Rooted c w.files
  running : ∀ l, w.progress = .running l → Kept c w.files l
  returned : ∀ fd path, w.progress = .returned (.ok (fd, path)) → Inside w.files.parent c.root fd

/-- How many steps may follow. -/
def steps_left (w : World ν) : Nat :=
  match w.progress with
  | .running l => CHASE_MAX + 1 - l.n_steps
  | .returned _ => 0

theorem Rooted.moved {t t' : Files ν} (h : Rooted c t) (hm : Moved c.root t t') : Rooted c t' where
  no_root := by
    rw [hm.same.1]
    exact h.no_root
  root := by
    rw [hm.same.1]
    exact h.root

/-- Steps keep what holds of every state. -/
theorem Held.step (h : Held c w) (hstep : (system c).step w e w') : Held c w' := by
  cases e with
  | rename =>
    obtain ⟨hm, hprogress⟩ := hstep
    refine ⟨h.rooted.moved hm, ?_, ?_⟩
    · intro l hl
      exact (h.running l (hprogress ▸ hl)).moved hm
    · intro fd path hret
      exact hm.inside (h.returned fd path (hprogress ▸ hret))
  | step =>
    obtain ⟨l, hl, -, hm, hprogress⟩ := hstep
    have hkept := h.running l hl
    refine ⟨h.rooted.moved hm, ?_, ?_⟩
    · intro l' hl'
      rw [hprogress] at hl'
      unfold iterate at hl'
      split at hl'
      · next hok =>
        cases hl'
        exact (chase_step_kept h.rooted hkept hm hok).1
      · cases hl'
      · cases hl'
      · cases hl'
    · intro fd path hret
      rw [hprogress] at hret
      unfold iterate at hret
      split at hret
      · cases hret
      · injection hret with hfinish
        exact (chase_finish_kept (hkept.moved hm)).2 fd path hfinish
      · cases hret
      · cases hret
  | give_up =>
    obtain ⟨l, hl, -, hfiles, hprogress⟩ := hstep
    refine ⟨?_, ?_, ?_⟩
    · rw [hfiles]
      exact h.rooted
    · intro l' hl'
      rw [hprogress] at hl'
      cases hl'
    · intro fd path hret
      rw [hprogress] at hret
      cases hret

/-- Each step uses one up. -/
theorem steps_left_step (h : Held c w) (hstep : (system c).step w e w') :
    steps_left w' + (if e = .step then 1 else 0) ≤ steps_left w := by
  cases e with
  | rename =>
    obtain ⟨-, hprogress⟩ := hstep
    unfold steps_left
    rw [hprogress]
    exact Nat.le_refl _
  | step =>
    obtain ⟨l, hl, hn, hm, hprogress⟩ := hstep
    have hleft : steps_left w' ≤ CHASE_MAX - l.n_steps := by
      unfold steps_left
      rw [hprogress]
      unfold iterate
      split
      · next heq =>
        split at heq
        · next l' hok =>
          cases heq
          have hn' := (chase_step_kept h.rooted (h.running l hl) hm hok).2
          omega
        · cases heq
        · cases heq
        · cases heq
      · exact Nat.zero_le _
    rw [if_pos rfl, show steps_left w = CHASE_MAX + 1 - l.n_steps by rw [steps_left, hl]]
    omega
  | give_up =>
    obtain ⟨l, -, -, -, hprogress⟩ := hstep
    unfold steps_left
    rw [hprogress]
    exact Nat.zero_le _

/-- The steps of a run are counted. -/
theorem run_count (h : Held c w) (hrun : Run (system c) w es w') :
    es.count .step + steps_left w' ≤ steps_left w := by
  induction hrun with
  | nil => simp
  | @cons w w1 w' e es hst _ ih =>
    have hone := steps_left_step h hst
    have hrest := ih (h.step hst)
    rw [count_cons]
    by_cases he : e = .step
    · rw [if_pos he] at hone
      rw [if_pos (by simpa using he)]
      omega
    · rw [if_neg he] at hone
      rw [if_neg (by simpa using he)]
      omega

/-- What holds of every state of a run. -/
theorem run_held (hrun : Run (system c) w es w') (h : Held c w) : Held c w' :=
  Run.invariant (fun _ _ _ hheld hst => Held.step hheld hst) hrun h

/-- A step from where the path says too little fails an assertion. -/
theorem step_abort (h : Held c w) (hnot : ¬ Ready c w) (hstep : (system c).step w .step w') :
    w'.progress = .returned .abort := by
  obtain ⟨l, hl, -, -, hprogress⟩ := hstep
  have habort : chase_step c w.files w'.files l = .abort := by
    rw [chase_step_abort_iff h.rooted (h.running l hl)]
    by_contra hno
    refine hnot fun l' hl' hneed hup hdir hne => ?_
    obtain rfl : l = l' := by
      rw [hl] at hl'
      injection hl'
    by_contra hrec
    exact hno ⟨hneed, hup, hdir, hne, hrec⟩
  rw [hprogress, iterate, habort]

/-- No other step does. -/
theorem step_no_abort (h : Held c w) (hnot : w.progress ≠ .returned .abort)
    (hready : e = .step → Ready c w) (hstep : (system c).step w e w') :
    w'.progress ≠ .returned .abort := by
  cases e with
  | rename =>
    rw [hstep.2]
    exact hnot
  | step =>
    obtain ⟨l, hl, -, hm, hprogress⟩ := hstep
    have hkept := h.running l hl
    rw [hprogress]
    unfold iterate
    split
    · exact nofun
    · intro habort
      injection habort with habort
      exact (chase_finish_kept (hkept.moved hm)).1 habort
    · exact nofun
    · next habort =>
      obtain ⟨hneed, hup, hdir, hne, hrec⟩ := (chase_step_abort_iff h.rooted hkept).mp habort
      exact absurd (hready rfl l hl hneed hup hdir hne) hrec
  | give_up =>
    obtain ⟨l, -, -, -, hprogress⟩ := hstep
    rw [hprogress]
    exact nofun

/-- The loop goes on, or gives up. -/
theorem running_step {l : ChaseLoop ν} (hl : w.progress = .running l) :
    ∃ e w', e ≠ .rename ∧ (system c).step w e w' := by
  by_cases hn : l.n_steps ≤ CHASE_MAX
  · exact ⟨.step, ⟨w.files, iterate c w.files w.files l⟩, nofun, l, hl, hn, .none _, rfl⟩
  · exact ⟨.give_up, ⟨w.files, .returned (.err .ELOOP)⟩, nofun, l, hl, Nat.not_le.mp hn, rfl, rfl⟩

end runs

/-! ## Section 6: The call -/

section call
variable {p : Process ν} {t : Files ν} {root_fd dir_fd : DirFd} {path todo : Text}
variable {must_be_directory ret_path : Bool} {c : ChaseArgs ν} {l : ChaseLoop ν}

theorem chase_start_kept (hdir : Inside t.parent c.root c.dir)
    (h : chase_start c t todo = .ok l) : Kept c t l ∧ l.n_steps = 0 := by
  unfold chase_start at h
  split at h
  · obtain rfl := ok.inj h
    refine ⟨⟨hdir, [], nofun, ?_, nofun, ?_⟩, rfl⟩
    · split
      · next hneed => rw [hneed]; rfl
      · next hneed => rw [eq_false_iff.mpr hneed]; rfl
    · intro hneed
      simp only [and_eq_true, or_eq_true, decide_eq_true_eq] at hneed
      exact hneed.1
  · cases h

variable [DecidableEq ν]

section
variable (h : chase_args p t root_fd dir_fd path must_be_directory ret_path = (c, todo))
include h

theorem chase_args_rooted : Rooted c t := by
  obtain ⟨rfl, -⟩ := mk.inj h
  by_cases hroot : root_fd = .AT_FDCWD ∨ dir_fd_is_root p t root_fd = true
  · refine ⟨?_, ?_⟩
    · intro _
      simp only [if_pos hroot]
      rfl
    · intro hno
      exact absurd (if_pos hroot) hno
  · refine ⟨?_, ?_⟩
    · intro hno
      simp only [if_neg hroot] at hno
      rw [hno] at hroot
      exact absurd (.inr (by simp [dir_fd_is_root, Process.node])) hroot
    · intro _ htop
      simp only [if_neg hroot] at htop
      exact hroot (.inr (by simp [dir_fd_is_root, htop]))

/-- One starts inside the root. -/
theorem chase_args_inside (hdir : Inside t.parent c.root (p.node t dir_fd)) :
    Inside t.parent c.root c.dir := by
  obtain ⟨rfl, -⟩ := mk.inj h
  generalize (if root_fd = .AT_FDCWD ∨ dir_fd_is_root p t root_fd = true then .XAT_FDROOT
    else root_fd : DirFd) = root at hdir ⊢
  by_cases hsame : (if dir_fd_is_root p t dir_fd = true ∧ root = .XAT_FDROOT then .XAT_FDROOT
      else dir_fd : DirFd) = .XAT_FDROOT ∨ path_is_absolute path = true
  · rw [if_pos hsame]
    exact .self
  · have hother : ¬ (dir_fd_is_root p t dir_fd = true ∧ root = .XAT_FDROOT) :=
      fun hand => hsame (.inl (if_pos hand))
    rw [if_neg hsame, if_neg hother]
    exact hdir

end

/-- Before anything has happened. -/
theorem held_start
    (hargs : chase_args p t root_fd dir_fd path must_be_directory ret_path = (c, todo))
    (hstart : chase_start c t todo = .ok l) (hdir : Inside t.parent c.root (p.node t dir_fd)) :
    Held c ⟨t, .running l⟩ where
  rooted := chase_args_rooted hargs
  running := by
    intro l' hl
    cases hl
    exact (chase_start_kept (chase_args_inside hargs hdir) hstart).1
  returned := nofun

/-- In every run the loop ends after at most `CHASE_MAX + 1` steps, and what it
    pins is inside the root. No assertion fails where each step up that is taken
    with an absolute path, from below the root, finds a path with a last
    component and with less than `PATH_MAX` bytes before it; from any other
    state such a step fails one. -/
theorem chase_renames_iff
    (hargs : chase_args p t root_fd dir_fd path must_be_directory ret_path = (c, todo))
    (hstart : chase_start c t todo = .ok l) (hdir : Inside t.parent c.root (p.node t dir_fd)) :
    (∀ es w, Run (system c) ⟨t, .running l⟩ es w →
      es.count .step ≤ CHASE_MAX + 1 ∧
      (∀ l', w.progress = .running l' → ∃ e w', e ≠ .rename ∧ (system c).step w e w') ∧
      (∀ fd path', w.progress = .returned (.ok (fd, path')) →
        Inside w.files.parent c.root fd)) ∧
    (∀ es w, Run ((system c).restrict fun w e => e = .step → Ready c w) ⟨t, .running l⟩ es w →
      w.progress ≠ .returned .abort) ∧
    (∀ es w w', Run (system c) ⟨t, .running l⟩ es w → ¬ Ready c w →
      (system c).step w .step w' → w'.progress = .returned .abort) := by
  have hheld := held_start hargs hstart hdir
  refine ⟨?_, ?_, ?_⟩
  · intro es w hrun
    have hcount := run_count hheld hrun
    have hleft : steps_left (⟨t, .running l⟩ : World ν) ≤ CHASE_MAX + 1 := Nat.sub_le _ _
    refine ⟨by omega, ?_, (run_held hrun hheld).returned⟩
    intro l' hl
    exact running_step hl
  · intro es w hrun
    have hkeep : ∀ w e w', Held c w ∧ w.progress ≠ .returned .abort →
        ((system c).restrict fun w e => e = .step → Ready c w).step w e w' →
        Held c w' ∧ w'.progress ≠ .returned .abort := by
      intro w e w' hw hstep
      exact ⟨hw.1.step hstep.2, step_no_abort hw.1 hw.2 hstep.1 hstep.2⟩
    have hnot : (⟨t, .running l⟩ : World ν).progress ≠ .returned .abort := nofun
    exact (Run.invariant hkeep hrun ⟨hheld, hnot⟩).2
  · intro es w w' hrun hnot hstep
    exact step_abort (run_held hrun hheld) hnot hstep

/-! ### A directory that is moved -/

/-- For the numbers of `Fin 3`. -/
local instance neZero_three : NeZero 3 := ⟨by decide⟩

/-- The directories `/a` and `/x`. -/
def two_directories : Files (Fin 3) where
  top := 0
  kind := fun _ => .directory
  parent := fun _ => 0
  child := fun d name =>
    if d = 0 then if name = ascii "a" then some 1 else if name = ascii "x" then some 2 else none
    else none
  parent_top := rfl
  rooted := fun _ => .under .self
  directory_parent := fun _ => rfl
  parent_child := by
    intro d c name h
    split at h
    · next hd => exact hd.symm
    · cases h
  child_inj := by
    intro d c a b ha hb
    split at ha
    · next hd =>
      rw [if_pos hd] at hb
      split at ha
      · next ha' =>
        split at hb
        · next hb' => rw [ha', hb']
        · split at hb
          · rw [← hb] at ha
            cases ha
          · cases hb
      · split at ha
        · next ha' =>
          split at hb
          · rw [← hb] at ha
            cases ha
          · split at hb
            · next hb' => rw [ha', hb']
            · cases hb
        · cases ha
    · cases ha

/-- `/a` can be moved to `/x/a`. -/
theorem move_two_directories : Move two_directories 0 (ascii "a") 2 (ascii "a") 1 where
  from_child := rfl
  directory := rfl
  to_directory := rfl
  free := nofun
  not_below := by
    intro h
    have hone : ∀ n : Fin 3, Inside two_directories.parent 1 n → n = 1 := by
      intro n hn
      induction hn with
      | self => rfl
      | under _ ih => cases ih
    cases hone 2 h

/-- A process whose descriptors are all of the root. -/
def root_process : Process (Fin 3) := ⟨0, fun _ => 0⟩

/-- The arguments for `/a/../..` without a root, and the loop as it starts. -/
def up_twice : ChaseArgs (Fin 3) := ⟨.XAT_FDROOT, .XAT_FDROOT, 0, 0, true, true⟩

def up_twice_start : ChaseLoop (Fin 3) := ⟨0, 0, true, some [slash], ascii "/a/../.."⟩

/-- However directories are moved there, the loop makes few steps. -/
theorem chase_renames_two_directories :
    chase_args root_process two_directories .XAT_FDROOT .XAT_FDROOT (ascii "/a/../..") false true =
      (up_twice, ascii "/a/../..") ∧
    ∀ es w, Run (system up_twice) ⟨two_directories, .running up_twice_start⟩ es w →
      es.count .step ≤ CHASE_MAX + 1 := by
  have hargs : chase_args root_process two_directories .XAT_FDROOT .XAT_FDROOT (ascii "/a/../..")
      false true = (up_twice, ascii "/a/../..") := by decide +kernel
  refine ⟨hargs, fun es w hrun => ?_⟩
  exact ((chase_renames_iff hargs rfl .self).1 es w hrun).1

/-- `/a/../..`, while `/a` is moved to `/x/a` after it was opened: the path is
    `/` when the loop is in `/x`. -/
theorem renames_abort :
    chase_args root_process two_directories .XAT_FDROOT .XAT_FDROOT (ascii "/a/../..") false true =
      (up_twice, ascii "/a/../..") ∧
    chase_start up_twice two_directories (ascii "/a/../..") = .ok up_twice_start ∧
    Inside two_directories.parent up_twice.root
      (root_process.node two_directories .XAT_FDROOT) ∧
    ∃ es w, Run (system up_twice) ⟨two_directories, .running up_twice_start⟩ es w ∧
      w.progress = .returned .abort := by
  refine ⟨by decide +kernel, by rfl, .self, [.step, .rename, .step, .step],
    ⟨move_two_directories.tree, .returned .abort⟩, ?_, rfl⟩
  have hmoved : Moved (0 : Fin 3) two_directories move_two_directories.tree :=
    .move move_two_directories .self (.under .self) (.none _)
  -- down to /a, which is moved, and up twice
  have hdown : (system up_twice).step ⟨two_directories, .running up_twice_start⟩ .step
      ⟨two_directories, .running ⟨1, 1, true, some (ascii "/a"), ascii "../.."⟩⟩ :=
    ⟨_, rfl, by decide, .none _, by rfl⟩
  have hrename : (system up_twice).step
      ⟨two_directories, .running ⟨1, 1, true, some (ascii "/a"), ascii "../.."⟩⟩ .rename
      ⟨move_two_directories.tree, .running ⟨1, 1, true, some (ascii "/a"), ascii "../.."⟩⟩ :=
    ⟨hmoved, rfl⟩
  have hup : (system up_twice).step
      ⟨move_two_directories.tree, .running ⟨1, 1, true, some (ascii "/a"), ascii "../.."⟩⟩ .step
      ⟨move_two_directories.tree, .running ⟨2, 2, true, some [slash], ascii ".."⟩⟩ :=
    ⟨_, rfl, by decide, .none _, by rfl⟩
  have habort : (system up_twice).step
      ⟨move_two_directories.tree, .running ⟨2, 2, true, some [slash], ascii ".."⟩⟩ .step
      ⟨move_two_directories.tree, .returned .abort⟩ :=
    ⟨_, rfl, by decide, .none _, by rfl⟩
  exact .cons hdown (.cons hrename (.cons hup (.single habort)))

end call

end SdCompat.Chase
