import SdCompat.Basic.FdUtil

/-! # Rearranging the standard descriptors (fd-util.c)

    `rearrange_stdio` makes three descriptors the standard ones. What is in the
    way is copied first, and the copies are closed at the end.
-/

namespace SdCompat.Fds

open List Function

/-! ## Section 1: Model -/

section
variable {File : Type}

/-- The open files, and `/dev/null` as it is opened here. -/
inductive StdFile (File : Type) where
  | given (f : File)
  | null (readable writable : Bool)
  deriving DecidableEq

/-- The variables of `rearrange_stdio`, with the copies it has made, and what it
    has closed. -/
structure Stdio (File : Type) where
  table : Table (StdFile File)
  null_fd : Option Nat
  fd : Fin 3 → Option Nat
  copy_fd : List Nat
  closed : List Nat

/-- How a step fails: the function ends with an error, or, where there is
    nothing, an assertion fails. -/
abbrev Stop (File : Type) := Option (Stdio File)

/-- `safe_close`, which asserts that the descriptor is open. -/
def safe_close (s : Stdio File) (fd : Nat) : Except (Stop File) (Stdio File) :=
  if (s.table fd).isNone then .error none
  else .ok { s with table := close s.table fd, closed := s.closed ++ [fd] }

def close_many (s : Stdio File) : List Nat → Except (Stop File) (Stdio File)
  | [] => .ok s
  | fd :: fds => safe_close s fd >>= fun s => close_many s fds

/-- The three arguments; one that is negative is `none`. -/
abbrev Args := Fin 3 → Option Nat

def null_readable (a : Args) : Bool := (a 0).isNone

def null_writable (a : Args) : Bool := (a 1).isNone || (a 2).isNone

/-- `/dev/null` is opened, on a descriptor above the standard ones. -/
def open_null (limit : Nat) (a : Args) (s : Stdio File) : Except (Stop File) (Stdio File) :=
  if null_readable a || null_writable a then
    match (range limit).find? fun n => (s.table n).isNone with
    | none => .error (some s)
    | some n =>
      let s :=
        { s with
          table := update s.table n (some ⟨.null (null_readable a) (null_writable a), true⟩)
          null_fd := some n }
      if n < 3 then
        match fcntl_dupfd limit true s.table n 3 with
        | none => .error (some s)
        | some (copy, t) => do
          -- `close_and_replace`
          let s ← safe_close { s with table := t } n
          .ok { s with null_fd := some copy }
      else .ok s
  else .ok s

/-- A round of the loop that assembles the descriptors. -/
def assemble (limit : Nat) (a : Args) (i : Fin 3) (s : Stdio File) :
    Except (Stop File) (Stdio File) :=
  match a i with
  | none => .ok { s with fd := update s.fd i s.null_fd }
  | some n =>
    if n ≠ i && n < 3 then
      match fcntl_dupfd limit true s.table n 3 with
      | none => .error (some s)
      | some (copy, t) =>
        .ok { s with
              table := t
              copy_fd := s.copy_fd ++ [copy]
              fd := update s.fd i (some copy) }
    else .ok { s with fd := update s.fd i (some n) }

/-- A round of the loop that moves them: `fd_cloexec` or `dup2`, which both turn
    the flag off. -/
def move (i : Fin 3) (s : Stdio File) : Except (Stop File) (Stdio File) :=
  match s.fd i with
  | none => .error none
  | some n =>
    if n ≠ i && n < 3 then .error none
    else
      match s.table n with
      | none => .error (some s)
      | some x => .ok { s with table := update s.table i (some { x with cloexec := false }) }

/-- What `safe_close_above_stdio` closes. -/
def above_stdio (fd : Option Nat) : List Nat := fd.toList.filter (2 < ·)

/-- The arguments that are closed, each once. -/
def originals (a : Args) : List Nat :=
  above_stdio (a 0) ++ (if a 1 ≠ a 0 then above_stdio (a 1) else []) ++
    if a 2 ≠ a 0 && a 2 ≠ a 1 then above_stdio (a 2) else []

/-- What comes after the label `finish`. -/
def finish (a : Args) (s : Stdio File) : Except (Stop File) (Stdio File) :=
  close_many s (originals a ++ s.copy_fd ++ above_stdio s.null_fd)

/-- `rearrange_stdio`: whether it succeeds, and the variables at the end, unless
    an assertion fails. -/
def rearrange_stdio (limit : Nat) (a : Args) (t : Table (StdFile File)) :
    Option (Bool × Stdio File) :=
  let r := do
    let s ← open_null limit a ⟨t, none, fun _ => none, [], []⟩
    let s ← assemble limit a 0 s
    let s ← assemble limit a 1 s
    let s ← assemble limit a 2 s
    let s ← move 0 s
    let s ← move 1 s
    move 2 s
  match r with
  | .ok s => (finish a s).toOption.map fun s => (true, s)
  | .error (some s) => (finish a s).toOption.map fun s => (false, s)
  | .error none => none

/-! ## Section 2: What is to be arranged -/

variable (a : Args) (t : Table (StdFile File))

/-- What an argument refers to. -/
def Meant (i : Fin 3) (file : StdFile File) : Prop :=
  match a i with
  | some n => ∃ x, t n = some x ∧ file = x.file
  | none => ∃ r w, file = .null r w ∧ (i = 0 → r = true) ∧ (i ≠ 0 → w = true)

structure Rearranged (s : Stdio File) : Prop where
  arranged : ∀ i : Fin 3, ∃ file, s.table i = some ⟨file, false⟩ ∧ Meant a t i file
  closed : ∀ i n, a i = some n → 2 < n → s.table n = none ∧ s.closed.count n = 1
  others : ∀ n, 2 < n → (∀ i, a i ≠ some n) → s.table n = t n

/-! ## Section 3: The temporary descriptors -/

/-- The descriptors that are opened, until they are closed. -/
def temps (s : Stdio File) : List Nat := s.copy_fd ++ above_stdio s.null_fd

/-- The arguments before `k` are assembled. -/
structure Prepared (k : Nat) (s : Stdio File) : Prop where
  temps : ∀ n ∈ temps s, 2 < n ∧ t n = none
  others : ∀ n ∉ Fds.temps s, s.table n = t n
  closed : ∀ n ∈ s.closed, n < 3
  null : ∀ n, s.null_fd = some n → 2 < n ∧
    s.table n = some ⟨.null (null_readable a) (null_writable a), true⟩
  ready : ∀ j : Fin 3, j < k → ∀ n, s.fd j = some n → a j = some n ∨
    2 < n ∧ ∃ x, s.table n = some x ∧ Meant a t j x.file

variable {a t} {limit k : Nat} {s s' s₀ : Stdio File}

theorem mem_temps {n : Nat} : n ∈ temps s ↔ n ∈ s.copy_fd ∨ s.null_fd = some n ∧ 2 < n := by
  unfold temps above_stdio
  simp

theorem safe_close_ok {fd : Nat} (h : safe_close s fd = .ok s') : s.table fd ≠ none ∧
    s' = { s with table := close s.table fd, closed := s.closed ++ [fd] } := by
  unfold safe_close at h
  split at h
  · cases h
  · next hopen =>
    refine ⟨fun hnone => hopen (by rw [hnone]; rfl), (Except.ok.inj h).symm⟩

theorem bind_ok {ε α β : Type} {x : Except ε α} {f : α → Except ε β} {b : β}
    (h : (x >>= f) = .ok b) : ∃ y, x = .ok y ∧ f y = .ok b := by
  cases x with
  | error e => cases h
  | ok y => exact ⟨y, rfl, h⟩

/-- `/dev/null` is open, on a descriptor that was free. -/
theorem Prepared.of_null {n : Nat} (hn : 2 < n) (hfree : t n = none) (htable : ∀ m, s.table m =
      if m = n then some ⟨.null (null_readable a) (null_writable a), true⟩ else t m)
    (hnull : s.null_fd = some n) (hcopy : s.copy_fd = []) (hclosed : ∀ m ∈ s.closed, m < 3) :
    Prepared a t 0 s := by
  have hmem : ∀ m, m ∈ Fds.temps s ↔ m = n := by
    intro m
    rw [mem_temps, hcopy, hnull]
    simp
    omega
  refine ⟨fun m hm => ?_, fun m hm => ?_, hclosed, fun m hm => ?_,
    fun j hj => absurd hj (Nat.not_lt_zero _)⟩
  · obtain rfl := (hmem m).mp hm
    exact ⟨hn, hfree⟩
  · rw [htable, if_neg (mt (hmem m).mpr hm)]
  · obtain rfl := Option.some.inj (hnull.symm.trans hm)
    rw [htable, if_pos rfl]
    exact ⟨hn, rfl⟩

theorem open_null_ok (h : open_null limit a ⟨t, none, fun _ => none, [], []⟩ = .ok s) :
    Prepared a t 0 s := by
  unfold open_null at h
  split at h
  · split at h
    · cases h
    next n hn =>
    have hfree : t n = none := by simpa using find?_some hn
    dsimp only at h
    split at h
    · next hlow =>
      -- it is moved out of the way
      split at h
      · cases h
      next copy t' hdup =>
      obtain ⟨x, hx, hge, hcopy, -, rfl⟩ := dupfd_ok hdup
      rw [update_self] at hx
      obtain ⟨s1, h1, h⟩ := bind_ok h
      obtain ⟨-, rfl⟩ := safe_close_ok h1
      obtain rfl := Except.ok.inj h
      rw [update_of_ne (by omega)] at hcopy
      refine .of_null hge hcopy (fun m => ?_) rfl rfl fun m hm => mem_singleton.mp hm ▸ hlow
      dsimp only
      rw [close, update_apply, update_apply]
      grind
    · next hhigh =>
      obtain rfl := Except.ok.inj h
      exact .of_null (by omega) hfree (fun m => update_apply ..) rfl rfl fun _ hm => (by cases hm)
  · obtain rfl := Except.ok.inj h
    exact ⟨fun _ hm => (by cases hm), fun _ _ => rfl, fun _ hm => (by cases hm),
      fun _ hm => (by cases hm), fun j hj => absurd hj (Nat.not_lt_zero _)⟩

theorem assemble_ok {i : Fin 3} (h : Prepared a t i s) (hs : assemble limit a i s = .ok s') :
    Prepared a t (i + 1) s' := by
  have hbefore : ∀ j : Fin 3, (j : Nat) < i + 1 → j ≠ i → (j : Nat) < i := by omega
  unfold assemble at hs
  split at hs
  · next hnone =>
    obtain rfl := Except.ok.inj hs
    refine ⟨h.temps, h.others, h.closed, h.null, fun j hj n hn => ?_⟩
    by_cases hji : j = i
    · subst hji
      obtain ⟨hge, hnull⟩ := h.null n (by simpa using hn)
      refine .inr ⟨hge, _, hnull, ?_⟩
      rw [Meant, hnone]
      refine ⟨_, _, rfl, ?_, ?_⟩
      · rintro rfl
        rw [null_readable, hnone]
        rfl
      · intro hne
        have hj' : j = 1 ∨ j = 2 := by omega
        rcases hj' with rfl | rfl
        · rw [null_writable, hnone]
          rfl
        · rw [null_writable, hnone]
          exact Bool.or_true _
    · exact h.ready j (hbefore j hj hji) n (by simpa [update_of_ne hji] using hn)
  next n hn =>
  split at hs
  · next hlow =>
    rw [Bool.and_eq_true, decide_eq_true_eq, decide_eq_true_eq] at hlow
    split at hs
    · cases hs
    next copy t' hdup =>
    obtain ⟨x, hx, hge, hcopy, -, rfl⟩ := dupfd_ok hdup
    obtain rfl := Except.ok.inj hs
    have hmem : ∀ m, m ∈ temps { s with
        table := update s.table copy (some { x with cloexec := true })
        copy_fd := s.copy_fd ++ [copy]
        fd := update s.fd i (some copy) } ↔ m = copy ∨ m ∈ temps s := by
      intro m
      rw [mem_temps, mem_temps, mem_append, mem_singleton]
      tauto
    have hnew : ∀ m y, s.table m = some y → m ≠ copy := by
      rintro m y hy rfl
      rw [hcopy] at hy
      cases hy
    refine ⟨fun m hm => ?_, fun m hm => ?_, h.closed, fun m hm => ?_, fun j hj m hm => ?_⟩
    · rcases (hmem m).mp hm with rfl | hm
      · refine ⟨hge, ?_⟩
        by_cases hin : m ∈ temps s
        · exact (h.temps m hin).2
        · rw [← h.others m hin, hcopy]
      · exact h.temps m hm
    · rw [hmem, not_or] at hm
      exact (update_of_ne hm.1 ..).trans (h.others m hm.2)
    · obtain ⟨hm2, hm'⟩ := h.null m hm
      exact ⟨hm2, (update_of_ne (hnew m _ hm') ..).trans hm'⟩
    · by_cases hji : j = i
      · subst hji
        obtain rfl : copy = m := by simpa using hm
        refine .inr ⟨hge, _, update_self .., ?_⟩
        rw [Meant, hn]
        have hout : n ∉ temps s := fun hin => absurd (h.temps n hin).1 (by omega)
        exact ⟨x, (h.others n hout).symm.trans hx, rfl⟩
      · rcases h.ready j (hbefore j hj hji) m (by simpa [update_of_ne hji] using hm) with
          hl | ⟨hm2, y, hy, hmeant⟩
        · exact .inl hl
        · exact .inr ⟨hm2, y, (update_of_ne (hnew m y hy) ..).trans hy, hmeant⟩
  · obtain rfl := Except.ok.inj hs
    refine ⟨h.temps, h.others, h.closed, h.null, fun j hj m hm => ?_⟩
    by_cases hji : j = i
    · subst hji
      obtain rfl : n = m := by simpa using hm
      exact .inl hn
    · exact h.ready j (hbefore j hj hji) m (by simpa [update_of_ne hji] using hm)

/-- The descriptors before `k` are moved; an argument may still be a temporary
    descriptor. -/
structure Moved (a : Args) (t : Table (StdFile File)) (s₀ : Stdio File) (k : Nat)
    (s : Stdio File) : Prop where
  kept : s = { s₀ with table := s.table }
  same : ∀ n, k ≤ n → s.table n = s₀.table n
  arranged : ∀ j : Fin 3, j < k → ∃ file, s.table j = some ⟨file, false⟩ ∧
    ((∀ n, a j = some n → n ∉ temps s₀) → Meant a t j file)

theorem move_ok {i : Fin 3} (h : Prepared a t 3 s₀) (hm : Moved a t s₀ i s)
    (hs : move i s = .ok s') : Moved a t s₀ (i + 1) s' := by
  unfold move at hs
  split at hs
  · cases hs
  next n hn =>
  split at hs
  · cases hs
  next hplace =>
  split at hs
  · cases hs
  next x hx =>
  obtain rfl := Except.ok.inj hs
  rw [Bool.and_eq_true, decide_eq_true_eq, decide_eq_true_eq] at hplace
  rw [hm.kept] at hn
  rw [hm.same n (by omega)] at hx
  refine ⟨by rw [hm.kept], fun m hlt => ?_, fun j hj => ?_⟩
  · exact (update_of_ne (by omega) ..).trans (hm.same m (by omega))
  · by_cases hji : j = i
    · subst hji
      refine ⟨x.file, update_self .., fun hout => ?_⟩
      rcases h.ready j j.isLt n hn with ha | ⟨-, y, hy, hmeant⟩
      · rw [Meant, ha]
        exact ⟨x, (h.others n (hout n ha)).symm.trans hx, rfl⟩
      · rw [hy] at hx
        rwa [← Option.some.inj hx]
    · obtain ⟨file, hfile, hj'⟩ := hm.arranged j (by omega)
      exact ⟨file, (update_of_ne (by omega) ..).trans hfile, hj'⟩

/-! ## Section 4: What is closed -/

/-- What is closed is open before, so that nothing is closed twice. -/
theorem close_many_ok {fds : List Nat} (h : close_many s fds = .ok s') :
    (∀ n ∈ fds, s.table n ≠ none) ∧ fds.Nodup ∧ s'.closed = s.closed ++ fds ∧
      ∀ n, s'.table n = if n ∈ fds then none else s.table n := by
  induction fds generalizing s with
  | nil =>
    cases h
    exact ⟨fun _ hn => (by cases hn), nodup_nil, (append_nil _).symm, fun _ => rfl⟩
  | cons fd fds ih =>
    obtain ⟨s1, h1, h⟩ := bind_ok h
    obtain ⟨hfd, rfl⟩ := safe_close_ok h1
    obtain ⟨hopen, hnodup, hclosed, htable⟩ := ih h
    have hout : fd ∉ fds := fun hin => hopen fd hin (update_self ..)
    refine ⟨forall_mem_cons.mpr ⟨hfd, fun n hn => ?_⟩, nodup_cons.mpr ⟨hout, hnodup⟩, ?_,
      fun n => ?_⟩
    · have hne : n ≠ fd := fun he => hout (he ▸ hn)
      exact fun hnone => hopen n hn ((update_of_ne hne ..).trans hnone)
    · rw [hclosed, append_assoc]
      rfl
    · rw [htable]
      dsimp only
      rw [close]
      grind

theorem mem_originals {n : Nat} : n ∈ originals a ↔ 2 < n ∧ ∃ i, a i = some n := by
  have hex : (∃ i, a i = some n) ↔ a 0 = some n ∨ a 1 = some n ∨ a 2 = some n := by
    rw [Fin.exists_fin_succ, Fin.exists_fin_succ]
    simp
  unfold originals above_stdio
  grind

theorem finish_ok (h : Prepared a t 3 s₀) (hm : Moved a t s₀ 3 s) (hs : finish a s = .ok s') :
    Rearranged a t s' := by
  obtain ⟨-, hnodup, hclosed, htable⟩ := close_many_ok hs
  rw [hm.kept, append_assoc] at hnodup
  have hmem : ∀ n, n ∈ originals a ++ s.copy_fd ++ above_stdio s.null_fd ↔
      n ∈ originals a ∨ n ∈ temps s₀ := by
    intro n
    rw [hm.kept, append_assoc, mem_append]
    rfl
  -- an argument that is a temporary descriptor would be closed twice
  have hout : ∀ i n, a i = some n → n ∉ temps s₀ := by
    intro i n ha hin
    exact (disjoint_of_nodup_append hnodup) (mem_originals.mpr ⟨(h.temps n hin).1, i, ha⟩) hin
  refine ⟨fun i => ?_, fun i n ha hn => ?_, fun n hn ha => ?_⟩
  · obtain ⟨file, hfile, hmeant⟩ := hm.arranged i i.isLt
    refine ⟨file, ?_, hmeant (hout i)⟩
    rw [htable, if_neg, hfile]
    rw [hmem, not_or]
    exact ⟨fun hin => absurd (mem_originals.mp hin).1 (by omega),
      fun hin => absurd (h.temps _ hin).1 (by omega)⟩
  · have hin := (hmem n).mpr (.inl (mem_originals.mpr ⟨hn, i, ha⟩))
    refine ⟨by rw [htable, if_pos hin], ?_⟩
    have hbefore : n ∉ s.closed := by
      rw [hm.kept]
      exact fun hin => absurd (h.closed n hin) (by omega)
    rw [hclosed, count_append, count_eq_zero.mpr hbefore, Nat.zero_add]
    refine count_eq_one_of_mem ?_ hin
    rwa [hm.kept, append_assoc]
  · have hnot : n ∉ originals a := fun hin => (mem_originals.mp hin).2.elim ha
    rw [htable]
    by_cases hin : n ∈ temps s₀
    · rw [if_pos ((hmem n).mpr (.inr hin)), (h.temps n hin).2]
    · rw [if_neg (mt (hmem n).mp (not_or.mpr ⟨hnot, hin⟩)), hm.same n hn, h.others n hin]

theorem stdio_rearranged (h : rearrange_stdio limit a t = some (true, s)) : Rearranged a t s := by
  unfold rearrange_stdio at h
  dsimp only at h
  split at h
  · next r hr =>
    obtain ⟨s1, h1, hr⟩ := bind_ok hr
    obtain ⟨s2, h2, hr⟩ := bind_ok hr
    obtain ⟨s3, h3, hr⟩ := bind_ok hr
    obtain ⟨s4, h4, hr⟩ := bind_ok hr
    obtain ⟨s5, h5, hr⟩ := bind_ok hr
    obtain ⟨s6, h6, hr⟩ := bind_ok hr
    have hp := assemble_ok (assemble_ok (assemble_ok (open_null_ok h1) h2) h3) h4
    have hm : Moved a t s4 0 s4 :=
      ⟨rfl, fun _ _ => rfl, fun j hj => absurd hj (Nat.not_lt_zero _)⟩
    have hm3 := move_ok hp (move_ok hp (move_ok hp hm h5) h6) hr
    cases hf : finish a r with
    | error e =>
      rw [hf] at h
      cases h
    | ok s' =>
      rw [hf] at h
      cases h
      exact finish_ok hp hm3 hf
  · obtain ⟨s', -, h⟩ := Option.map_eq_some_iff.mp h
    cases h
  · cases h

/-- Standard input and output are swapped, and standard error is `/dev/null`. -/
theorem stdio_rearranged_swap : ∃ s, rearrange_stdio 8
      (fun i => if i = 0 then some 1 else if i = 1 then some 0 else none)
      (fun n => if n < 3 then some ⟨.given n, true⟩ else none) = some (true, s) ∧
    Rearranged (fun i => if i = 0 then some 1 else if i = 1 then some 0 else none)
      (fun n => if n < 3 then some ⟨.given n, true⟩ else none) s := by
  obtain ⟨s, hs⟩ : ∃ s, rearrange_stdio 8
      (fun i => if i = 0 then some 1 else if i = 1 then some 0 else none)
      (fun n => if n < 3 then some ⟨.given n, true⟩ else none) = some (true, s) := ⟨_, rfl⟩
  exact ⟨s, hs, stdio_rearranged hs⟩

end

end SdCompat.Fds
