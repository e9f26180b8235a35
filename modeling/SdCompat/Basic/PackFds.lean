import SdCompat.Basic.FdUtil

/-! # Packing descriptors (fd-util.c)

    `pack_fds` moves the descriptors of an array to the lowest numbers, in
    passes over the array.
-/

namespace SdCompat.Fds

open Option Function

/-! ## Section 1: Model -/

section
variable {File : Type}

/-- The array, the descriptors that are open, and the variable of a pass. -/
structure Pack (File : Type) where
  fds : Nat → Nat
  table : Table File
  restart_from : Option Nat

/-- A round of a pass; there is no result when nothing is free. -/
def pack_round (limit i : Nat) (x : Pack File) : Option (Pack File) :=
  -- already at the right index
  if x.fds i = i + 3 then some x
  else do
    let (nfd, t) ← fcntl_dupfd limit false x.table (x.fds i) (i + 3)
    some
      { fds := update x.fds i nfd
        table := close t (x.fds i)
        restart_from :=
          if nfd ≠ i + 3 && x.restart_from.isNone then some i else x.restart_from }

/-- The rounds from `i` on. -/
def pack_pass (limit : Nat) : Nat → Nat → Pack File → Option (Pack File)
  | 0, _, x => some x
  | m + 1, i, x => (pack_round limit i x).bind (pack_pass limit m (i + 1))

/-- The passes, at most `fuel` of them. -/
def pack_loop (limit n : Nat) : Nat → Nat → Pack File → Option (Option (Pack File))
  | 0, _, _ => none
  | fuel + 1, start, x =>
    match pack_pass limit (n - start) start { x with restart_from := none } with
    | none => some none
    | some x =>
      match x.restart_from with
      | none => some (some x)
      | some i => pack_loop limit n fuel i x

/-- `pack_fds`, with an array of `n`; it succeeds with some array, or fails with
    none. -/
def pack_fds (fuel limit n : Nat) (fds : Nat → Nat) (t : Table File) :
    Option (Outcome (Option (Pack File))) :=
  if n = 0 then some (.ok (some ⟨fds, t, none⟩))
  else
    (pack_loop limit n fuel 0 ⟨fds, t, none⟩).map fun r =>
      match r with
      | none => .ok none
      | some x => if x.fds 0 = 3 then .ok (some x) else .abort

/-! ## Section 2: What a round keeps -/

/-- The array lists the open descriptors from 3 on, each once. -/
structure Only (n : Nat) (fds : Nat → Nat) (t : Table File) : Prop where
  distinct : ∀ i < n, ∀ j < n, fds i = fds j → i = j
  listed : ∀ fd, 3 ≤ fd → (t fd ≠ none ↔ ∃ i < n, fds i = fd)
  above : ∀ i < n, 3 ≤ fds i

/-- And they refer to the files that they have referred to. -/
structure Packing (n : Nat) (fds₀ : Nat → Nat) (t₀ : Table File) (x : Pack File) : Prop
    extends Only n x.fds x.table where
  same : ∀ i < n, (x.table (x.fds i)).map Entry.file = (t₀ (fds₀ i)).map Entry.file

/-- The entries before `i` are in place, up to the one to restart from; its place
    is taken by no entry before `i`. -/
structure Passed (low i : Nat) (x : Pack File) : Prop where
  packed : ∀ j < x.restart_from.getD i, x.fds j = j + 3
  restart : ∀ r, x.restart_from = some r → low ≤ r ∧ r < i ∧ ∀ j < i, x.fds j ≠ r + 3

variable {limit n low i m start : Nat} {fds₀ : Nat → Nat} {t₀ : Table File} {x x' : Pack File}

theorem round_ok (hi : i < n) (hlow : low ≤ i) (h : Packing n fds₀ t₀ x) (hp : Passed low i x)
    (hround : pack_round limit i x = some x') : Packing n fds₀ t₀ x' ∧ Passed low (i + 1) x' ∧
      (x.table (i + 3) = none → x.restart_from = none → x'.restart_from = none) := by
  unfold pack_round at hround
  split at hround
  · next hplace =>
    obtain rfl := some.inj hround
    refine ⟨h, ⟨fun j hj => ?_, fun r hr => ?_⟩, fun _ hnone => hnone⟩
    · by_cases hji : j = i
      · rw [hji, hplace]
      · apply hp.packed
        cases hr : x.restart_from with
        | none => rw [hr] at hj; exact (by simp at hj ⊢; omega)
        | some r => rw [hr] at hj; exact hj
    · obtain ⟨hlr, hri, htaken⟩ := hp.restart r hr
      refine ⟨hlr, by omega, fun j hj => ?_⟩
      by_cases hji : j = i
      · rw [hji]
        omega
      · exact htaken j (by omega)
  · next hplace =>
    obtain ⟨⟨nfd, t⟩, hdup, hround⟩ := bind_eq_some_iff.mp hround
    obtain rfl := some.inj hround
    obtain ⟨e, he, hge, hfree, hfirst, rfl⟩ := dupfd_ok hdup
    have hfds : ∀ j, update x.fds i nfd j = if j = i then nfd else x.fds j :=
      fun j => update_apply ..
    have htable : ∀ fd, close (update x.table nfd (some { e with cloexec := false }))
        (x.fds i) fd = if fd = x.fds i then none
          else if fd = nfd then some { e with cloexec := false } else x.table fd := by
      intro fd
      rw [close, update_apply, update_apply]
    have hnew : ∀ j < n, x.fds j ≠ nfd := by
      rintro j hj rfl
      exact (h.listed _ (h.above j hj)).mpr ⟨j, hj, rfl⟩ hfree
    have hdistinct := h.distinct i hi
    refine ⟨⟨⟨fun j hj k hk => ?_, fun fd hfd => ?_, fun j hj => ?_⟩, fun j hj => ?_⟩,
      ⟨fun j hj => ?_, fun r hr => ?_⟩, fun hnone hr => ?_⟩
    · have hjk := h.distinct j hj k hk
      dsimp only
      grind
    · have hlisted := h.listed fd hfd
      dsimp only
      grind
    · have habove := h.above j hj
      dsimp only
      rw [hfds]
      split <;> omega
    · have hsame := h.same j hj
      dsimp only
      grind
    · have hpacked := hp.packed j
      dsimp only at hj ⊢
      cases hr : x.restart_from with
      | none => grind
      | some r =>
        grind
    · dsimp only at hr ⊢
      cases hr' : x.restart_from with
      | none =>
        have hpacked := hp.packed
        grind
      | some r' =>
        have hrestart := hp.restart r' hr'
        grind
    · dsimp only
      rw [hfirst hnone, if_neg (by simp)]
      exact hr

theorem pass_ok (him : i + m = n) (hlow : low ≤ i) (h : Packing n fds₀ t₀ x) (hp : Passed low i x)
    (hpass : pack_pass limit m i x = some x') : Packing n fds₀ t₀ x' ∧ Passed low n x' := by
  induction m generalizing i x with
  | zero =>
    obtain rfl := some.inj hpass
    obtain rfl := him
    exact ⟨h, hp⟩
  | succ m ih =>
    obtain ⟨y, hy, hpass⟩ := bind_eq_some_iff.mp hpass
    obtain ⟨h', hp', -⟩ := round_ok (by omega) hlow h hp hy
    exact ih (by omega) (by omega) h' hp' hpass

/-- The pass is the last one, or the place of the entry to restart from is free. -/
theorem pass_end (h : Packing n fds₀ t₀ x) (hp : Passed low n x) :
    (x.restart_from = none ∧ ∀ j < n, x.fds j = j + 3) ∨
      ∃ r, x.restart_from = some r ∧ low ≤ r ∧ r < n ∧ (∀ j < r, x.fds j = j + 3) ∧
        x.table (r + 3) = none := by
  have hpacked := hp.packed
  cases hr : x.restart_from with
  | none =>
    rw [hr] at hpacked
    exact .inl ⟨rfl, hpacked⟩
  | some r =>
    rw [hr] at hpacked
    obtain ⟨hlow, hrn, htaken⟩ := hp.restart r hr
    refine .inr ⟨r, rfl, hlow, hrn, hpacked, ?_⟩
    by_contra hopen
    obtain ⟨j, hj, hfd⟩ := (h.listed (r + 3) (by omega)).mp hopen
    exact htaken j hj hfd

variable (limit) in
/-- The loop ends. A pass that finds its first place free goes on behind it, and
    all passes but the first one do. -/
theorem loop_ok {fuel : Nat} (hstart : start < n) (h : Packing n fds₀ t₀ x)
    (hpacked : ∀ j < start, x.fds j = j + 3)
    (hfuel : n < fuel + start ∧ x.table (start + 3) = none ∨ n + 1 < fuel + start) :
    ∃ r, pack_loop limit n fuel start x = some r ∧
      ∀ x', r = some x' → Packing n fds₀ t₀ x' ∧ ∀ j < n, x'.fds j = j + 3 := by
  induction fuel generalizing start x with
  | zero => omega
  | succ fuel ih =>
    unfold pack_loop
    obtain ⟨m, hm⟩ : ∃ m, n - start = m + 1 := ⟨n - start - 1, by omega⟩
    have h0 : Packing n fds₀ t₀ { x with restart_from := none } := ⟨h.toOnly, h.same⟩
    have hp0 : Passed start start { x with restart_from := none } :=
      ⟨hpacked, fun r hr => (by cases hr)⟩
    cases hpass : pack_pass limit (n - start) start { x with restart_from := none } with
    | none => exact ⟨none, rfl, fun x' hx' => (by cases hx')⟩
    | some y =>
      rw [hm] at hpass
      obtain ⟨z, hz, hrest⟩ := bind_eq_some_iff.mp hpass
      obtain ⟨h1, hp1, hnone⟩ := round_ok hstart (Nat.le_refl _) h0 hp0 hz
      obtain ⟨low, hlow, hleft, hp1'⟩ : ∃ low ≤ start + 1, n < fuel + low ∧ Passed low (start + 1) z := by
        rcases hfuel with ⟨hfuel, hfree⟩ | hfuel
        · exact ⟨start + 1, Nat.le_refl _, by omega, hp1.packed,
            fun r hr => (by rw [hnone hfree rfl] at hr; cases hr)⟩
        · exact ⟨start, by omega, by omega, hp1⟩
      obtain ⟨h2, hp2⟩ := pass_ok (by omega) hlow h1 hp1' hrest
      dsimp only
      rcases pass_end h2 hp2 with ⟨hr, hall⟩ | ⟨r, hr, hlow, hrn, hbefore, hfree⟩
      · rw [hr]
        exact ⟨_, rfl, fun x' hx' => some.inj hx' ▸ ⟨h2, hall⟩⟩
      · rw [hr]
        exact ih hrn h2 hbefore (.inl ⟨by omega, hfree⟩)

/-- What has been packed. -/
structure Packed (n : Nat) (fds : Nat → Nat) (t : Table File) (x : Pack File) : Prop where
  packed : ∀ i < n, x.fds i = i + 3 ∧
    (x.table (i + 3)).map Entry.file = (t (fds i)).map Entry.file
  only : ∀ fd, 3 ≤ fd → (x.table fd ≠ none ↔ fd < n + 3)

variable {fds : Nat → Nat} {t : Table File}

theorem fds_packed (h : Only n fds t) : ∀ fuel > n + 1, ∃ r, pack_fds fuel limit n fds t = some r ∧
    r ≠ .abort ∧ ∀ x, r = .ok (some x) → Packed n fds t x := by
  intro fuel hfuel
  have hdone : ∀ x, Packing n fds t x → (∀ j < n, x.fds j = j + 3) → Packed n fds t x := by
    intro x hx hall
    refine ⟨fun i hi => ⟨hall i hi, hall i hi ▸ hx.same i hi⟩, fun fd hfd => ?_⟩
    rw [hx.listed fd hfd]
    constructor
    · rintro ⟨i, hi, rfl⟩
      have := hall i hi
      omega
    · intro hlt
      exact ⟨fd - 3, by omega, by rw [hall _ (by omega)]; omega⟩
  unfold pack_fds
  by_cases hn : n = 0
  · rw [if_pos hn]
    refine ⟨_, rfl, fun h => (by cases h), fun x hx => ?_⟩
    obtain rfl := some.inj (Outcome.ok.inj hx)
    exact hdone _ ⟨h, fun i _ => rfl⟩ fun j hj => absurd hj (by omega)
  · obtain ⟨r, hr, hok⟩ := loop_ok limit (Nat.pos_of_ne_zero hn)
      (show Packing n fds t ⟨fds, t, none⟩ from ⟨h, fun i _ => rfl⟩) (fun j hj => (by cases hj))
      (.inr hfuel)
    rw [if_neg hn, hr]
    cases r with
    | none => exact ⟨_, rfl, fun h => (by cases h), fun x hx => (by cases hx)⟩
    | some x =>
      obtain ⟨hx, hall⟩ := hok x rfl
      refine ⟨_, rfl, ?_, fun y hy => ?_⟩
      · dsimp only
        rw [if_pos (hall 0 (by omega))]
        exact fun h => (by cases h)
      · dsimp only at hy
        rw [if_pos (hall 0 (by omega))] at hy
        obtain rfl := some.inj (Outcome.ok.inj hy)
        exact hdone x hx hall

/-- Two descriptors in the wrong order. -/
theorem fds_packed_swapped : ∃ r, pack_fds 4 1024 2 (fun i => 4 - i)
    (fun fd => if fd = 3 ∨ fd = 4 then some ⟨fd, true⟩ else none) = some r ∧ r ≠ .abort ∧
      ∀ x, r = .ok (some x) → Packed 2 (fun i => 4 - i)
        (fun fd => if fd = 3 ∨ fd = 4 then some ⟨fd, true⟩ else none) x := by
  refine fds_packed ?_ 4 (by decide)
  refine ⟨fun i hi j hj h => by omega, fun fd hfd => ?_, fun i hi => by omega⟩
  constructor
  · intro h
    refine ⟨4 - fd, ?_⟩
    by_contra hne
    exact h (if_neg (by omega))
  · rintro ⟨i, hi, rfl⟩
    rw [if_pos (by omega)]
    exact fun h => (by cases h)

end

end SdCompat.Fds
