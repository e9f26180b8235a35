import SdCompat.SdBus.Address

/-! # The text of a key and of an address

    A round of a loop over keys reads the text of one key, up to the separator,
    and no further, unless it skips a key that it does not know.

    * `Rounds`: what the loops need of a round;
    * `key_rounds`, `exec_rounds`: the rounds there are meet it;
    * `address_loop_text`, `address_loop_over`: what a loop reads of an address,
      and when it gets into the next one.
-/

namespace SdCompat.Address

open List Outcome Bool Nat

variable {part tail w s : List UInt8} {v : Values} {keys : List Key} {key : Key}

/-! ## Section 1: Up to a separator -/

/-- A text without separators. -/
def Plain (s : List UInt8) : Prop := ∀ c ∈ s, ends_value c = false

/-- What is after a text: nothing, or a separator first. -/
def Ends (s : List UInt8) : Prop := ∀ c ∈ s.head?, ends_value c = true

variable {c : UInt8}

theorem Plain.of_cons (h : Plain (c :: s)) : ends_value c = false ∧ Plain s :=
  forall_mem_cons.mp h

theorem plain_of_all (h : s.all (fun c => !ends_value c) = true) : Plain s := by
  intro c hc
  simpa using all_eq_true.mp h c hc

theorem Plain.suffix (h : Plain s) (hw : w <:+ s) : Plain w := fun c hc => h c (hw.subset hc)

/-- A plain text in front is in front of what comes before the separator. -/
theorem isPrefixOf_append (hw : Plain w) (ht : Ends tail) :
    w.isPrefixOf (part ++ tail) = w.isPrefixOf part := by
  induction w generalizing part with
  | nil => simp
  | cons c w ih =>
    obtain ⟨hc, hrest⟩ := hw.of_cons
    cases part with
    | cons d part => simp only [cons_append, isPrefixOf, ih hrest]
    | nil =>
      cases tail with
      | nil => rfl
      | cons d tail =>
        have hd : ends_value d = true := ht d rfl
        have hne : (c == d) = false := by
          rw [beq_eq_false_iff_ne]
          rintro rfl
          rw [hc] at hd
          cases hd
        simp [isPrefixOf, hne]

variable {p : UInt8 → Bool}

/-- What is dropped of a text does not go over the separator. -/
theorem dropWhile_append_ends (hp : ∀ c, ends_value c = true → p c = false) (ht : Ends tail) :
    (part ++ tail).dropWhile p = part.dropWhile p ++ tail := by
  rw [dropWhile_append]
  split
  · next hempty =>
    rw [isEmpty_iff.mp hempty, nil_append]
    cases tail with
    | nil => rfl
    | cons c tail => rw [dropWhile_cons, if_neg (by simp [hp c (ht c rfl)])]
  · rfl

theorem takeWhile_append_ends (hp : ∀ c, ends_value c = true → p c = false) (ht : Ends tail) :
    (part ++ tail).takeWhile p = part.takeWhile p := by
  rw [takeWhile_append]
  split
  · next hall =>
    have hself : part.takeWhile p = part := by
      apply List.IsPrefix.eq_of_length (List.takeWhile_prefix p) hall
    rw [hself]
    cases tail with
    | nil => simp
    | cons c tail => rw [takeWhile_cons, if_neg (by simp [hp c (ht c rfl)]), append_nil]
  · rfl

/-- A separator is no digit of an escape code. -/
theorem unhexchar_separator (h : ends_value c = true) : unhexchar c = none :=
  forall_byte (P := fun c => ends_value c = true → unhexchar c = none) (by decide +kernel) c h

/-- The value that is read ends where its text does. -/
theorem address_value_append (hpart : Plain part) (ht : Ends tail) :
    address_value (part ++ tail) = (address_value part).map fun (r, _) => (r, tail) := by
  induction hn : part.length using Nat.strongRecOn generalizing part with
  | ind n ih =>
    cases part with
    | nil =>
      cases tail with
      | nil => rfl
      | cons c tail =>
        rw [nil_append]
        unfold address_value
        rw [if_pos (ht c rfl)]
        rfl
    | cons c a =>
      obtain ⟨hc, ha⟩ := hpart.of_cons
      rw [cons_append]
      unfold address_value
      simp only [hc, false_eq_true, if_false]
      by_cases hescape : c = 0x25
      · simp only [if_pos hescape]
        -- the digits are there, or the code is cut off
        rcases a with _ | ⟨x, _ | ⟨y, a⟩⟩
        · cases tail with
          | nil => rfl
          | cons d tail =>
            have hd := unhexchar_separator (ht d rfl)
            cases tail with
            | nil => rfl
            | cons e tail => simp [hd]
        · cases tail with
          | nil => rfl
          | cons d tail =>
            have hd := unhexchar_separator (ht d rfl)
            simp only [singleton_append, hd]
            cases unhexchar x <;> rfl
        · have hrest := (ha.of_cons.2).of_cons.2
          have hlt : a.length < n := by
            rw [← hn]
            simp only [length_cons]
            omega
          rw [cons_append, cons_append]
          dsimp only
          cases unhexchar x with
          | none => rfl
          | some x =>
            cases unhexchar y with
            | none => rfl
            | some y =>
              dsimp only
              rw [ih _ hlt hrest rfl, Option.map_map, Option.map_map]
              rfl
      · simp only [if_neg hescape]
        have hlt : a.length < n := by
          rw [← hn]
          exact lt_succ_self _
        rw [ih _ hlt ha rfl, Option.map_map, Option.map_map]
        rfl

/-! ## Section 2: One key -/

theorem Key.name_plain (key : Key) : Plain (key.name ++ [0x3d]) := by
  cases key <;> exact plain_of_all (by decide)

/-- Whether the text is that of this key. -/
def Key.here (key : Key) (part : List UInt8) : Bool := (key.name ++ [0x3d]).isPrefixOf part

/-- What is behind a key, in its text. -/
theorem key_start_eq (p : List UInt8) (key : Key) (value : Option (List UInt8)) :
    key_start p (some key.name) value = if key.here p then
        if value.isSome then .err .EINVAL else .ok (some (p.drop (key.name.length + 1)))
      else .ok none := by
  unfold key_start startswith memory_startswith Key.here
  dsimp only
  by_cases hname : key.name.isPrefixOf p = true
  · rw [if_pos hname]
    obtain ⟨a, rfl⟩ := List.isPrefixOf_iff_prefix.mp hname
    rw [drop_left]
    cases a with
    | nil =>
      rw [if_neg]
      rw [List.isPrefixOf_iff_prefix, append_nil]
      intro hlong
      have := hlong.length_le
      rw [length_append, length_singleton] at this
      omega
    | cons c a =>
      have hiff : (key.name ++ [0x3d]).isPrefixOf (key.name ++ c :: a) = true ↔ c = 0x3d := by
        rw [List.isPrefixOf_iff_prefix, prefix_append_right_inj, singleton_prefix_cons_iff]
        exact eq_comm
      by_cases hc : c = 0x3d
      · have hdrop : (key.name ++ c :: a).drop (key.name.length + 1) = a := by simp
        rw [if_pos (hiff.mpr hc), hdrop]
        exact if_neg (not_not.mpr hc)
      · rw [if_neg (mt hiff.mp hc)]
        exact if_pos hc
  · rw [if_neg hname, if_neg]
    intro hlong
    apply hname
    rw [List.isPrefixOf_iff_prefix] at hlong ⊢
    exact (prefix_append _ _).trans hlong

/-- How far a value goes does not depend on what follows its text. -/
def value_append (tail : List UInt8) :
    Outcome (Option (List UInt8 × List UInt8)) → Outcome (Option (List UInt8 × List UInt8))
  | .ok (some (value, _)) => .ok (some (value, after_comma tail))
  | o => o

theorem parse_value_append (hpart : Plain part) (ht : Ends tail) :
    parse_address_key (part ++ tail) none none =
      value_append tail (parse_address_key part none none) := by
  unfold parse_address_key key_start
  rw [ok_bind, ok_bind]
  dsimp only
  rw [address_value_append hpart ht]
  cases address_value part with
  | none => rfl
  | some r => rfl

theorem parse_address_key_append (hpart : Plain part) (ht : Ends tail) (key : Key)
    (value : Option (List UInt8)) : parse_address_key (part ++ tail) (some key.name) value =
      value_append tail (parse_address_key part (some key.name) value) := by
  unfold parse_address_key
  rw [key_start_eq, key_start_eq]
  have hhere : key.here (part ++ tail) = key.here part := isPrefixOf_append key.name_plain ht
  rw [hhere]
  by_cases h : key.here part = true
  · rw [if_pos h, if_pos h]
    cases value with
    | some value => rfl
    | none =>
      have hlen : key.name.length + 1 ≤ part.length := by
        simpa using (List.isPrefixOf_iff_prefix.mp h).length_le
      rw [drop_append_of_le_length hlen]
      have hbehind : Plain (part.drop (key.name.length + 1)) := hpart.suffix (drop_suffix _ _)
      simp only [Option.isSome_none, false_eq_true, if_false, ok_bind]
      rw [address_value_append hbehind ht]
      cases address_value (part.drop (key.name.length + 1)) with
      | none => rfl
      | some r => rfl
  · rw [if_neg h, if_neg h]
    rfl

/-! ## Section 3: One round -/

/-- A round read the text `part` as it does without anything after it. -/
def ReadsTo {V : Type} (part tail : List UInt8) (alone : Outcome V)
    (r : List UInt8 × Outcome V) : Prop :=
  match alone with
  | .ok v => r = (after_comma tail, .ok v)
  | .err e => ∃ q, q.length ≤ part.length ∧ r = (q ++ tail, .err e)
  | .abort => False

/-- What the loops need of a round, where the texts that it knows are those of
    `known`. -/
structure Rounds {V : Type} (round : V → List UInt8 → List UInt8 × Outcome V)
    (known : List UInt8 → Bool) : Prop where
  empty : known [] = false
  skips : ∀ v {part tail}, Plain part → Ends tail → known part = false →
    round v (part ++ tail) = (skip_address_key (part ++ tail), .ok v)
  reads : ∀ v {part tail}, Plain part → Ends tail → known part = true →
    ReadsTo part tail (round v part).2 (round v (part ++ tail))

/-- Whether the text is that of one of these keys. -/
def known_key (keys : List Key) (part : List UInt8) : Bool := keys.any (·.here part)

/-- The first key that is there is the one that is read. -/
theorem parse_keys_cons (p : List UInt8) (v : Values) (key : Key) (keys : List Key) :
    parse_keys p v (key :: keys) =
      if key.here p then
        match parse_address_key p (some key.name) (v key) with
        | .ok (some (value, p)) => .ok (some (v.set key value, p))
        | .ok none => .ok none
        | .err e => .err e
        | .abort => .abort
      else parse_keys p v keys := by
  rw [parse_keys]
  by_cases h : key.here p = true
  · rw [if_pos h]
    unfold parse_address_key
    rw [key_start_eq, if_pos h]
    cases v key with
    | some value => rfl
    | none =>
      simp only [Option.isSome_none, false_eq_true, if_false, ok_bind]
      cases address_value (p.drop (key.name.length + 1)) with
      | none => rfl
      | some r => rfl
  · rw [if_neg h]
    unfold parse_address_key
    rw [key_start_eq, if_neg h]
    rfl

/-- Where a key is, it is read, or there is an error. -/
theorem parse_address_key_here {p : List UInt8} {key : Key} (h : key.here p = true)
    (value : Option (List UInt8)) :
    (∃ r, parse_address_key p (some key.name) value = .ok (some r)) ∨
      ∃ e, parse_address_key p (some key.name) value = .err e := by
  unfold parse_address_key
  rw [key_start_eq, if_pos h]
  cases value with
  | some value => exact .inr ⟨_, rfl⟩
  | none =>
    simp only [Option.isSome_none, false_eq_true, if_false, ok_bind]
    cases address_value (p.drop (key.name.length + 1)) with
    | none => exact .inr ⟨_, rfl⟩
    | some r => exact .inl ⟨_, rfl⟩

/-- A value without a key is read, or there is an error. -/
theorem parse_value_cases (p : List UInt8) :
    (∃ value q, parse_address_key p none none = .ok (some (value, q))) ∨
      ∃ e, parse_address_key p none none = .err e := by
  unfold parse_address_key key_start
  rw [ok_bind]
  dsimp only
  cases address_value p with
  | none => exact .inr ⟨_, rfl⟩
  | some r => exact .inl ⟨_, _, rfl⟩

theorem parse_keys_unknown {p : List UInt8} (h : known_key keys p = false) :
    parse_keys p v keys = .ok none := by
  induction keys with
  | nil => rfl
  | cons key keys ih =>
    unfold known_key at h
    rw [any_cons, or_eq_false_iff] at h
    rw [parse_keys_cons, h.1, if_neg (by simp), ih h.2]

/-- The text of a key that is known is read as it is alone. -/
theorem parse_keys_known (hpart : Plain part) (ht : Ends tail) (h : known_key keys part = true) :
    (∃ v' q, parse_keys part v keys = .ok (some (v', q)) ∧
      parse_keys (part ++ tail) v keys = .ok (some (v', after_comma tail))) ∨
    ∃ e, parse_keys part v keys = .err e ∧ parse_keys (part ++ tail) v keys = .err e := by
  induction keys with
  | nil => cases h
  | cons key keys ih =>
    have hhere : key.here (part ++ tail) = key.here part := isPrefixOf_append key.name_plain ht
    rw [parse_keys_cons, parse_keys_cons, hhere]
    by_cases hkey : key.here part = true
    · rw [if_pos hkey, if_pos hkey, parse_address_key_append hpart ht]
      rcases parse_address_key_here hkey (v key) with ⟨r, hr⟩ | ⟨e, hr⟩
      · rw [hr]
        exact .inl ⟨_, _, rfl, rfl⟩
      · rw [hr]
        exact .inr ⟨_, rfl, rfl⟩
    · rw [if_neg hkey, if_neg hkey]
      apply ih
      unfold known_key at h ⊢
      rw [any_cons, or_eq_true] at h
      exact h.resolve_left hkey

theorem known_key_append (ht : Ends tail) (h : known_key keys part = false) :
    known_key keys (part ++ tail) = false := by
  rw [← h]
  unfold known_key
  congr 1
  funext key
  exact isPrefixOf_append key.name_plain ht

/-- The rounds of the loops that have keys only. -/
theorem key_rounds (keys : List Key) : Rounds (key_round keys) (known_key keys) where
  empty := by
    unfold known_key
    rw [any_eq_false]
    intro key _
    cases key <;> decide
  skips := by
    intro v part tail hpart ht h
    unfold key_round
    rw [parse_keys_unknown (known_key_append ht h)]
  reads := by
    intro v part tail hpart ht h
    unfold key_round
    rcases parse_keys_known hpart ht h with ⟨v', q, halone, hboth⟩ | ⟨e, halone, hboth⟩
    · rw [halone, hboth]
      rfl
    · rw [halone, hboth]
      exact ⟨part, le_refl _, rfl⟩

/-! ### The numbers of arguments -/

theorem separator_isspace (h : ends_value c = true) : isspace c = false :=
  forall_byte (P := fun c => ends_value c = true → isspace c = false) (by decide +kernel) c h

theorem separator_isdigit (h : ends_value c = true) : isdigit c = false :=
  forall_byte (P := fun c => ends_value c = true → isdigit c = false) (by decide +kernel) c h

theorem separator_sign (h : ends_value c = true) : c ≠ 0x2d ∧ c ≠ 0x2b ∧ c ≠ 0x3d :=
  forall_byte (P := fun c => ends_value c = true → c ≠ 0x2d ∧ c ≠ 0x2b ∧ c ≠ 0x3d)
    (by decide +kernel) c h

/-- Where the digits of a number are. -/
def number_text (s : List UInt8) : List UInt8 :=
  let t := s.dropWhile isspace
  if t.head? = some 0x2d || t.head? = some 0x2b then t.tail else t

/-- A separator is no sign. -/
theorem head_sign (ht : Ends tail) : tail.head? ≠ some 0x2d ∧ tail.head? ≠ some 0x2b := by
  cases tail with
  | nil => simp
  | cons d tail =>
    have hd := separator_sign (ht d rfl)
    simp [hd.1, hd.2.1]

theorem head_append (hc : tail.head? ≠ some c) :
    (part ++ tail).head? = some c ↔ part.head? = some c := by
  cases part with
  | nil => simp [hc]
  | cons d part => simp

theorem number_text_append (ht : Ends tail) :
    number_text (part ++ tail) = number_text part ++ tail := by
  unfold number_text
  rw [dropWhile_append_ends (fun c => separator_isspace) ht]
  generalize part.dropWhile isspace = u
  obtain ⟨hminus, hplus⟩ := head_sign ht
  simp only [head_append hminus, head_append hplus]
  cases u with
  | nil => simp
  | cons c u =>
    split
    · rfl
    · rfl

theorem strtoul10_eq (s : List UInt8) :
    strtoul10 s =
      let digits := (number_text s).takeWhile isdigit
      let n := digits.foldl (fun n c => 10 * n + (c - 0x30).toNat) 0
      if digits = [] || 2 ^ 64 ≤ n then none
      else some (if (s.dropWhile isspace).head? = some 0x2d then (2 ^ 64 - n) % 2 ^ 64 else n,
        (number_text s).dropWhile isdigit) := by
  rfl

/-- The number does not depend on what follows its text. -/
theorem strtoul10_append (ht : Ends tail) :
    strtoul10 (part ++ tail) = (strtoul10 part).map fun (n, rest) => (n, rest ++ tail) := by
  have hsign := @head_append (part.dropWhile isspace) tail _ (head_sign ht).1
  rw [strtoul10_eq, strtoul10_eq, number_text_append ht,
    takeWhile_append_ends (fun c => separator_isdigit) ht,
    dropWhile_append_ends (fun c => separator_isdigit) ht,
    dropWhile_append_ends (fun c => separator_isspace) ht]
  dsimp only
  split
  · rfl
  · simp only [hsign, Option.map_some]

theorem strtoul_argv_eq (s : List UInt8) : strtoul_argv s =
      if (number_text s).takeWhile isdigit = [] then (some 0, s)
      else ((strtoul10 s).map Prod.fst, (number_text s).dropWhile isdigit) := rfl

/-- A number is read within its text. -/
theorem strtoul_argv_append (ht : Ends tail) :
    strtoul_argv (part ++ tail) = ((strtoul_argv part).1, (strtoul_argv part).2 ++ tail) := by
  rw [strtoul_argv_eq, strtoul_argv_eq, number_text_append ht, strtoul10_append ht,
    takeWhile_append_ends (fun c => separator_isdigit) ht,
    dropWhile_append_ends (fun c => separator_isdigit) ht]
  split
  · rfl
  · rw [Option.map_map]
    rfl

theorem strtoul_argv_suffix (s : List UInt8) : (strtoul_argv s).2 <:+ s := by
  rw [strtoul_argv_eq]
  split
  · exact suffix_refl _
  · apply (dropWhile_suffix _).trans
    unfold number_text
    dsimp only
    split
    · exact (tail_suffix _).trans (dropWhile_suffix _)
    · exact dropWhile_suffix _

/-- Whether the text is that of a key of `parse_exec_address`. -/
def known_exec (part : List UInt8) : Bool :=
  known_key [.guid, .path] part || (ascii "argv").isPrefixOf part

theorem argv_round_append (hpart : Plain part) (ht : Ends tail) (v : ExecValues) :
    ReadsTo part tail (argv_round v part).2 (argv_round v (part ++ tail)) := by
  have hplain := hpart.suffix (strtoul_argv_suffix part)
  have hle := (strtoul_argv_suffix part).length_le
  unfold argv_round
  rw [strtoul_argv_append ht]
  match hr : strtoul_argv part with
  | (none, q) =>
    rw [hr] at hle
    exact ⟨q, hle, rfl⟩
  | (some n, []) =>
    -- the text ends with the number
    cases tail with
    | nil => exact ⟨[], zero_le _, rfl⟩
    | cons d tail =>
      dsimp only [nil_append]
      rw [if_pos (by simp [(separator_sign (ht d rfl)).2.2])]
      exact ⟨[], zero_le _, rfl⟩
  | (some n, c :: q) =>
    rw [hr] at hle hplain
    dsimp only [cons_append]
    split
    · exact ⟨c :: q, hle, rfl⟩
    · rw [parse_value_append hplain.of_cons.2 ht]
      have hq : q.length ≤ part.length := le_of_succ_le hle
      rcases parse_value_cases q with ⟨value, p, hr⟩ | ⟨e, hr⟩
      · rw [hr]
        rfl
      · rw [hr]
        exact ⟨q, hq, rfl⟩

/-- The rounds of `parse_exec_address`. -/
theorem exec_rounds : Rounds exec_round known_exec where
  empty := by decide
  skips := by
    intro v part tail hpart ht h
    unfold known_exec at h
    rw [or_eq_false_iff] at h
    have hnone := parse_keys_unknown (v := v.values) (known_key_append ht h.1)
    have hargv : startswith (part ++ tail) (ascii "argv") = none := by
      unfold startswith memory_startswith
      rw [isPrefixOf_append (plain_of_all (by decide)) ht, h.2]
      rfl
    unfold exec_round
    rw [hnone]
    rw [hargv]
  reads := by
    intro v part tail hpart ht h
    unfold exec_round
    by_cases hkey : known_key [.guid, .path] part = true
    · rcases parse_keys_known (v := v.values) hpart ht hkey with
        ⟨v', q, halone, hboth⟩ | ⟨e, halone, hboth⟩
      · rw [halone, hboth]
        rfl
      · rw [halone, hboth]
        exact ⟨part, le_refl _, rfl⟩
    · -- a number of an argument
      have hunknown := Bool.eq_false_iff.mpr hkey
      rw [parse_keys_unknown hunknown]
      unfold known_exec at h
      rw [hunknown] at h
      obtain ⟨q, rfl⟩ := List.isPrefixOf_iff_prefix.mp h
      have hstart : ∀ s, startswith (ascii "argv" ++ s) (ascii "argv") = some s := by
        intro s
        unfold startswith memory_startswith
        rw [if_pos (by simp), drop_left]
      rw [append_assoc, hstart]
      have hround := argv_round_append (hpart.suffix (suffix_append _ _)) ht v
      unfold ReadsTo at hround ⊢
      split
      · next v' hv =>
        rw [hv] at hround
        exact hround
      · next e hv =>
        rw [hv] at hround
        obtain ⟨q', hlen, hr⟩ := hround
        exact ⟨q', hlen.trans (by simp), hr⟩
      · next hv =>
        rw [hv] at hround
        exact hround

/-! ## Section 4: A loop -/

section loop
variable {V : Type} {round : V → List UInt8 → List UInt8 × Outcome V} {known : List UInt8 → Bool}
variable {rest : List UInt8} {ps : List (List UInt8)} {fuel : Nat}

/-- The texts of the keys one after the other, each by itself. -/
def read_parts (round : V → List UInt8 → List UInt8 × Outcome V) :
    V → List (List UInt8) → Outcome V
  | v, [] => .ok v
  | v, part :: ps =>
    match (round v part).2 with
    | .ok v => read_parts round v ps
    | .err e => .err e
    | .abort => .abort

/-- The loop gets as far as the last key, and that is none it knows. -/
def runs_over (round : V → List UInt8 → List UInt8 × Outcome V) (known : List UInt8 → Bool) :
    V → List (List UInt8) → Bool
  | _, [] => false
  | _, [part] => part ≠ [] && !known part
  | v, part :: ps =>
    match (round v part).2 with
    | .ok v => runs_over round known v ps
    | _ => false

theorem ends_of_at_end (h : at_end rest = true) : Ends rest ∧ after_comma rest = rest := by
  cases rest with
  | nil => exact ⟨by simp [Ends], rfl⟩
  | cons c rest =>
    obtain rfl : c = 0x3b := by simpa [at_end] using h
    exact ⟨by simp [Ends, ends_value], rfl⟩

theorem not_at_end (hpart : Plain part) (h : part ≠ []) : at_end (part ++ tail) = false := by
  cases part with
  | nil => exact absurd rfl h
  | cons c part =>
    have hc := hpart.of_cons.1
    unfold ends_value at hc
    rw [or_eq_false_iff] at hc
    simpa [at_end] using hc.1

/-- An unknown key is skipped up to the comma. -/
theorem skip_address_key_comma (hpart : Plain part) (s : List UInt8) :
    skip_address_key (part ++ 0x2c :: s) = s := by
  have hall : ∀ c ∈ part, (decide (c ≠ 0x2c)) = true := by
    intro c hc
    have := hpart c hc
    unfold ends_value at this
    rw [or_eq_false_iff] at this
    simpa using this.2
  unfold skip_address_key
  rw [dropWhile_append_of_pos hall]
  rfl

/-- Without a comma it is skipped up to the end of the string. -/
theorem skip_address_key_last (hpart : Plain part) : skip_address_key part = [] := by
  have hall : part.dropWhile (· ≠ 0x2c) = [] := by
    rw [dropWhile_eq_nil_iff]
    intro c hc
    have := hpart c hc
    unfold ends_value at this
    rw [or_eq_false_iff] at this
    simpa using this.2
  unfold skip_address_key
  rw [hall]
  rfl

theorem after_comma_length (a : List UInt8) : (after_comma a).length ≤ a.length := by
  cases a with
  | nil => exact le_refl _
  | cons c a =>
    simp only [after_comma]
    split
    · exact le_succ _
    · exact le_refl _

theorem skip_address_key_length (s : List UInt8) : (skip_address_key s).length ≤ s.length :=
  (after_comma_length _).trans (dropWhile_suffix _).length_le

/-- What is read of keys, when a loop has gone over them. -/
def LoopReads (u rest : List UInt8) (alone : Outcome V) (r : List UInt8 × Outcome V) : Prop :=
  match alone with
  | .ok v => r = (rest, .ok v)
  | .err e => ∃ q, q.length ≤ u.length ∧ r = (q ++ rest, .err e)
  | .abort => False

/-- A round, as the first of a loop. -/
theorem address_loop_succ {v : V} {p : List UInt8} (h : at_end p = false) :
    address_loop round (fuel + 1) v p =
      match round v p with
      | (p, .ok v) => address_loop round fuel v p
      | (p, .err e) => (p, .err e)
      | (p, .abort) => (p, .abort) := by
  rw [address_loop, h]
  rfl

theorem address_loop_end {v : V} (h : at_end rest = true) :
    address_loop round fuel v rest = (rest, .ok v) := by
  cases fuel with
  | zero => rfl
  | succ fuel => rw [address_loop, if_pos h]

/-- An unknown key by itself changes nothing. -/
theorem Rounds.unknown_alone (hr : Rounds round known) (hpart : Plain part)
    (h : known part = false) (v : V) : (round v part).2 = .ok v := by
  have hend : Ends [] := by simp [Ends]
  have hskip := hr.skips v hpart hend h
  rw [append_nil] at hskip
  rw [hskip]

/-- A round reads a key by itself, unless it skips one that the next address is
    behind. -/
theorem Rounds.text (hr : Rounds round known) (hpart : Plain part) (ht : Ends tail)
    (h : known part = true ∨ tail = [] ∨ ∃ s, tail = 0x2c :: s) (v : V) :
    ReadsTo part tail (round v part).2 (round v (part ++ tail)) := by
  by_cases hknown : known part = true
  · exact hr.reads v hpart ht hknown
  · have hunknown := eq_false_iff.mpr hknown
    rw [hr.unknown_alone hpart hunknown v, hr.skips v hpart ht hunknown]
    rcases h.resolve_left hknown with rfl | ⟨s, rfl⟩
    · rw [append_nil, skip_address_key_last hpart]
      rfl
    · rw [skip_address_key_comma hpart]
      rfl

variable {alone : Outcome V} {u : List UInt8}

/-- A round and the rest of its loop. -/
theorem address_loop_round {next : V → Outcome V} {v : V} (hgo : at_end (part ++ tail) = false)
    (hround : ReadsTo part tail alone (round v (part ++ tail)))
    (hstop : ∀ q : List UInt8, q.length ≤ part.length → ∃ q' : List UInt8, q'.length ≤ u.length ∧ q ++ tail = q' ++ rest)
    (hnext : ∀ v', alone = .ok v' → LoopReads u rest (next v') (address_loop round fuel v' (after_comma tail))) :
    LoopReads u rest
      (match alone with
      | .ok v' => next v'
      | .err e => .err e
      | .abort => .abort)
      (address_loop round (fuel + 1) v (part ++ tail)) := by
  rw [address_loop_succ hgo]
  cases alone with
  | ok v' =>
    rw [hround]
    exact hnext v' rfl
  | err e =>
    obtain ⟨q, hq, hr⟩ := hround
    obtain ⟨q', hq', heq⟩ := hstop q hq
    rw [hr]
    exact ⟨q', hq', by rw [heq]⟩
  | abort => exact hround.elim

theorem join_cons (hne : ps ≠ []) :
    [0x2c].intercalate (part :: ps) = part ++ 0x2c :: [0x2c].intercalate ps := by
  rw [intercalate_cons_of_ne_nil hne]
  simp

/-- More text in front of it is no harm to what a loop reads. -/
theorem LoopReads.mono {u' : List UInt8} {r : List UInt8 × Outcome V} (h : LoopReads u rest alone r)
    (hle : u.length ≤ u'.length) : LoopReads u' rest alone r := by
  cases alone with
  | ok v => exact h
  | err e =>
    obtain ⟨q, hq, hr⟩ := h
    exact ⟨q, hq.trans hle, hr⟩
  | abort => exact h

/-- A loop reads the keys of its address, each from its own text, unless it runs
    over the end. -/
theorem address_loop_text (hr : Rounds round known) (hrest : at_end rest = true)
    (hne : ps ≠ []) (hplain : ∀ part ∈ ps, Plain part) (v : V)
    (hover : rest = [] ∨ runs_over round known v ps = false)
    (hfuel : ([0x2c].intercalate ps).length ≤ fuel) :
    LoopReads ([0x2c].intercalate ps) rest (read_parts round v ps)
      (address_loop round fuel v ([0x2c].intercalate ps ++ rest)) := by
  induction ps generalizing v fuel with
  | nil => exact absurd rfl hne
  | cons part ps ih =>
    obtain ⟨hpart, hps⟩ := forall_mem_cons.mp hplain
    obtain ⟨hends, hafter⟩ := ends_of_at_end hrest
    by_cases hlast : ps = []
    · -- the last key, with the end of the address behind it
      subst hlast
      simp only [intercalate_singleton] at hfuel ⊢
      rw [read_parts]
      by_cases hempty : part = []
      · subst hempty
        rw [hr.unknown_alone hpart hr.empty, nil_append, address_loop_end hrest]
        rfl
      · obtain ⟨fuel, rfl⟩ : ∃ m, fuel = m + 1 := by
          cases fuel with
          | zero => exact absurd (length_eq_zero_iff.mp (le_zero.mp hfuel)) hempty
          | succ fuel => exact ⟨fuel, rfl⟩
        have hwhich : known part = true ∨ rest = [] ∨ ∃ s, rest = 0x2c :: s := by
          rcases hover with hover | hover
          · exact .inr (.inl hover)
          · left
            simpa [runs_over, hempty] using hover
        apply address_loop_round (not_at_end hpart hempty) (hr.text hpart hends hwhich v)
        · intro q hq
          exact ⟨q, hq, rfl⟩
        · intro v' _
          rw [hafter]
          exact address_loop_end hrest
    · -- a comma follows
      rw [join_cons hlast] at hfuel ⊢
      rw [length_append, length_cons] at hfuel
      obtain ⟨fuel, rfl⟩ : ∃ m, fuel = m + 1 := ⟨fuel - 1, by omega⟩
      have hlen : ([0x2c].intercalate ps).length ≤ fuel := by omega
      have hgo : at_end (part ++ (0x2c :: [0x2c].intercalate ps ++ rest)) = false := by
        cases part with
        | nil => rfl
        | cons c part => exact not_at_end hpart (by simp)
      have hcomma : Ends (0x2c :: [0x2c].intercalate ps ++ rest) := by simp [Ends, ends_value]
      rw [append_assoc]
      apply address_loop_round hgo (hr.text hpart hcomma (.inr (.inr ⟨_, rfl⟩)) v)
      · intro q hq
        refine ⟨q ++ 0x2c :: [0x2c].intercalate ps, ?_, by simp⟩
        rw [length_append, length_append]
        omega
      · intro v' hv'
        have hover' : rest = [] ∨ runs_over round known v' ps = false := by
          refine hover.imp_right fun h => ?_
          rwa [runs_over, hv'] at h
          simpa using hlast
        refine (ih hlast hps v' hover' hlen).mono ?_
        rw [length_append, length_cons]
        omega

theorem split_text (p : List UInt8) : ∃ part tail, p = part ++ tail ∧ Plain part ∧ Ends tail := by
  refine ⟨p.takeWhile fun c => !ends_value c, p.dropWhile fun c => !ends_value c,
    takeWhile_append_dropWhile.symm, ?_, ?_⟩
  · intro c hc
    simpa using mem_takeWhile_imp hc
  · intro c hc
    have hne : p.dropWhile (fun c => !ends_value c) ≠ [] := by
      intro hnil
      rw [hnil] at hc
      cases hc
    have := head_dropWhile_not (fun c => !ends_value c) hne
    rw [head?_eq_some_head hne] at hc
    cases hc
    simpa using this

/-- The cursor does not go back. -/
theorem Rounds.shrinks (hr : Rounds round known) (v : V) (p : List UInt8) :
    (round v p).1.length ≤ p.length := by
  obtain ⟨part, tail, rfl, hpart, htail⟩ := split_text p
  by_cases hknown : known part = true
  · have hreads := hr.reads v hpart htail hknown
    cases halone : (round v part).2 with
    | ok v' =>
      rw [halone] at hreads
      rw [hreads, length_append]
      exact (after_comma_length tail).trans (Nat.le_add_left _ _)
    | err e =>
      rw [halone] at hreads
      obtain ⟨q, hq, hround⟩ := hreads
      rw [hround, length_append, length_append]
      exact Nat.add_le_add_right hq _
    | abort =>
      rw [halone] at hreads
      exact hreads.elim
  · rw [hr.skips v hpart htail (eq_false_iff.mpr hknown)]
    exact skip_address_key_length _

theorem address_loop_length (hr : Rounds round known) (fuel : Nat) (v : V) (p : List UInt8) :
    (address_loop round fuel v p).1.length ≤ p.length := by
  induction fuel generalizing v p with
  | zero => exact le_refl _
  | succ fuel ih =>
    unfold address_loop
    split
    · exact le_refl _
    · have hround := hr.shrinks v p
      match h : round v p with
      | (q, .ok v') =>
        rw [h] at hround
        exact (ih v' q).trans hround
      | (q, .err e) =>
        rw [h] at hround
        exact hround
      | (q, .abort) =>
        rw [h] at hround
        exact hround

/-- Without a comma before the end of the address, what is skipped is more than
    that. -/
theorem skip_address_key_over (hpart : Plain part) (s : List UInt8) :
    (skip_address_key (part ++ 0x3b :: s)).length ≤ s.length := by
  have hall : ∀ c ∈ part ++ [0x3b], (decide (c ≠ 0x2c)) = true := by
    intro c hc
    rcases mem_append.mp hc with hc | hc
    · have := hpart c hc
      unfold ends_value at this
      rw [or_eq_false_iff] at this
      simpa using this.2
    · obtain rfl := mem_singleton.mp hc
      rfl
  unfold skip_address_key
  rw [append_cons, dropWhile_append_of_pos hall]
  exact (after_comma_length _).trans (dropWhile_suffix _).length_le

/-- A loop that runs over the end gets into what is behind the separator. -/
theorem address_loop_over (hr : Rounds round known) {s : List UInt8}
    (hplain : ∀ part ∈ ps, Plain part) (v : V) (hover : runs_over round known v ps = true)
    (hfuel : ([0x2c].intercalate ps).length ≤ fuel) :
    (address_loop round fuel v ([0x2c].intercalate ps ++ 0x3b :: s)).1.length ≤ s.length := by
  induction ps generalizing v fuel with
  | nil => cases hover
  | cons part ps ih =>
    obtain ⟨hpart, hps⟩ := forall_mem_cons.mp hplain
    by_cases hlast : ps = []
    · -- the key that is skipped
      subst hlast
      obtain ⟨hempty, hunknown⟩ : part ≠ [] ∧ known part = false := by
        simpa [runs_over] using hover
      rw [intercalate_singleton] at hfuel ⊢
      obtain ⟨fuel, rfl⟩ : ∃ m, fuel = m + 1 := by
        cases fuel with
        | zero => exact absurd (length_eq_zero_iff.mp (le_zero.mp hfuel)) hempty
        | succ fuel => exact ⟨fuel, rfl⟩
      have hends : Ends (0x3b :: s) := by simp [Ends, ends_value]
      rw [address_loop_succ (not_at_end hpart hempty), hr.skips v hpart hends hunknown]
      exact (address_loop_length hr _ _ _).trans (skip_address_key_over hpart s)
    · rw [join_cons hlast] at hfuel ⊢
      rw [length_append, length_cons] at hfuel
      obtain ⟨fuel, rfl⟩ : ∃ m, fuel = m + 1 := ⟨fuel - 1, by omega⟩
      have hlen : ([0x2c].intercalate ps).length ≤ fuel := by omega
      have hgo : at_end (part ++ (0x2c :: [0x2c].intercalate ps ++ 0x3b :: s)) = false := by
        cases part with
        | nil => rfl
        | cons c part => exact not_at_end hpart (by simp)
      have hcomma : Ends (0x2c :: [0x2c].intercalate ps ++ 0x3b :: s) := by
        simp [Ends, ends_value]
      obtain ⟨v', hv', hrest⟩ : ∃ v', (round v part).2 = .ok v' ∧
          runs_over round known v' ps = true := by
        rw [runs_over] at hover
        · cases h : (round v part).2 with
          | ok v' =>
            rw [h] at hover
            exact ⟨v', rfl, hover⟩
          | err e =>
            rw [h] at hover
            cases hover
          | abort =>
            rw [h] at hover
            cases hover
        · simpa using hlast
      have hround := hr.text hpart hcomma (.inr (.inr ⟨_, rfl⟩)) v
      rw [hv'] at hround
      rw [append_assoc, address_loop_succ hgo, hround]
      exact ih hps v' hrest hlen

end loop

end SdCompat.Address
