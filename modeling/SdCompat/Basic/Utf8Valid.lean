import Mathlib.Data.List.GetD
import SdCompat.Basic.Utf8Chars

/-! # Strings of UTF-8 characters

    `utf8_is_valid_n` with the bytes it reads. Memory is what can be read from
    the current place on, and to read beyond it is an abort.
-/

namespace SdCompat

open List Outcome

/-! ## Section 1: Reading -/

/-- The continuation bytes of `utf8_encoded_to_unichar`. -/
def read_continue : Nat → List UInt8 → Nat → Outcome (Option Nat)
  | 0, _, unichar => .ok (some unichar)
  | _ + 1, [], _ => .abort
  | n + 1, c :: mem, unichar =>
    if c &&& 0xc0 = 0x80 then read_continue n mem (unichar <<< 6 ||| (c &&& 0x3f).toNat)
    else .ok none

/-- `utf8_encoded_to_unichar` -/
def read_unichar : List UInt8 → Outcome (Option Nat)
  | [] => .abort
  | c :: mem =>
    match utf8_encoded_expected_len c with
    | 1 => .ok (some c.toNat)
    | 2 => read_continue 1 mem (c &&& 0x1f).toNat
    | 3 => read_continue 2 mem (c &&& 0x0f).toNat
    | 4 => read_continue 3 mem (c &&& 0x07).toNat
    | 5 => read_continue 4 mem (c &&& 0x03).toNat
    | 6 => read_continue 5 mem (c &&& 0x01).toNat
    | _ => .ok none

/-- Whether so many bytes have their high bit. -/
def read_high : Nat → List UInt8 → Outcome Bool
  | 0, _ => .ok true
  | _ + 1, [] => .abort
  | n + 1, c :: mem => if c &&& 0x80 = 0x80 then read_high n mem else .ok false

/-- `utf8_encoded_valid_unichar` -/
def read_valid_unichar (mem : List UInt8) (length : Option Nat) : Outcome (Option Nat) :=
  match mem with
  | [] => .abort
  | c :: _ =>
    let len := utf8_encoded_expected_len c
    if len = 0 then .ok none
    else if length.any (· < len) then .ok none
    else if len = 1 then .ok (some 1)
    else do
      if ← read_high len mem then
        match ← read_unichar mem with
        | none => pure none
        | some unichar =>
          if utf8_unichar_to_encoded_len unichar = len && unichar_is_valid unichar then
            pure (some len)
          else pure none
      else pure none

/-- `utf8_is_valid_n` with what is left of `len_bytes`, which is `none` for
    `SIZE_MAX`; without fuel it is an abort. -/
def utf8_is_valid_n : Nat → List UInt8 → Option Nat → Outcome Bool
  | 0, _, _ => .abort
  | _ + 1, _, some 0 => .ok true
  | _ + 1, [], _ => .abort
  | fuel + 1, c :: mem, len_bytes =>
    if c = 0 then .ok len_bytes.isNone
    else do
      match ← read_valid_unichar (c :: mem) len_bytes with
      | none => pure false
      | some len => utf8_is_valid_n fuel ((c :: mem).drop len) (len_bytes.map (· - len))

variable {mem : List UInt8} {n : Nat}

theorem read_continue_eq (unichar : Nat) (h : n ≤ mem.length) :
    read_continue n mem unichar = .ok (utf8_continue unichar (mem.take n)) := by
  induction n generalizing mem unichar with
  | zero => rfl
  | succ n ih =>
    cases mem with
    | nil => cases h
    | cons c mem =>
      rw [read_continue, take_succ_cons, utf8_continue]
      split
      · exact ih _ (Nat.le_of_succ_le_succ h)
      · rfl

theorem read_unichar_eq (hmem : mem ≠ [])
    (h : utf8_encoded_expected_len (mem.headD 0) ≤ mem.length) :
    read_unichar mem = .ok (utf8_encoded_to_unichar mem) := by
  obtain ⟨c, mem, rfl⟩ := exists_cons_of_ne_nil hmem
  rw [headD_cons] at h
  have hcont : ∀ {n} unichar, n + 1 ≤ mem.length + 1 → read_continue n mem unichar =
      .ok (utf8_continue unichar ((range n).map fun i => (c :: mem).getD (i + 1) 0)) := by
    intro n unichar hn
    rw [read_continue_eq _ (Nat.le_of_succ_le_succ hn)]
    refine congrArg _ (congrArg _ (ext_getElem
      (by simp [Nat.le_of_succ_le_succ hn]) fun j hj _ => ?_))
    simp only [length_take, Nat.lt_min] at hj
    simp [hj.2]
  simp only [read_unichar, utf8_encoded_to_unichar, headD_cons]
  generalize utf8_encoded_expected_len c = len at h ⊢
  match len, h with
  | 0, _ | 1, _ | _ + 7, _ => rfl
  | 2, h | 3, h | 4, h | 5, h | 6, h => exact hcont _ h

/-- A byte without its high bit is the last one read. -/
theorem read_high_eq (h : n ≤ mem.length ∨ 0 ∈ mem) :
    read_high n mem = .ok ((List.range n).all fun j => mem.getD j 0 &&& 0x80 = 0x80) := by
  induction n generalizing mem with
  | zero => rfl
  | succ n ih =>
    cases mem with
    | nil => exact absurd h (by simp)
    | cons c mem =>
      rw [read_high, range_succ_eq_map, all_cons]
      by_cases hc : c &&& 0x80 = 0x80
      · rw [ih ?_]
        · simp [hc, Function.comp_def]
        · refine h.imp Nat.le_of_succ_le_succ fun h0 => (mem_cons.mp h0).resolve_left ?_
          rintro rfl
          exact absurd hc (by decide)
      · rw [if_neg hc]
        simp [hc]

/-- What is read of a string: a length ends it, or a NUL. -/
def InMemory (str mem : List UInt8) (len_bytes : Option Nat) : Prop :=
  len_bytes = some str.length ∧ (∃ rest, mem = str ++ rest) ∨ len_bytes = none ∧ mem = str ++ [0]

theorem getD_nul (str : List UInt8) (i : Nat) : (str ++ [0]).getD i 0 = str.getD i 0 := by
  rw [getD_eq_getElem?_getD, getD_eq_getElem?_getD, getElem?_append]
  split
  · rfl
  · next hi =>
    rw [getElem?_eq_none (Nat.not_lt.mp hi), getElem?_singleton]
    split
    · rfl
    · rfl

variable {limit : Option Nat}

/-- No more is read than the character. -/
theorem read_valid_unichar_eq {c : UInt8} {str : List UInt8}
    (h : InMemory (c :: str) (c :: mem) limit) :
    read_valid_unichar (c :: mem) limit = .ok (utf8_encoded_valid_unichar (c :: str)) := by
  obtain ⟨len, hlen⟩ : ∃ len, utf8_encoded_expected_len c = len := ⟨_, rfl⟩
  simp only [read_valid_unichar, utf8_encoded_valid_unichar, headD_cons, hlen]
  have hend : ((range len).all fun j => (c :: str).getD j 0 &&& 0x80 = 0x80) = true →
      len ≤ (c :: str).length := by
    intro hall
    by_contra hlt
    have hlast := all_eq_true.mp hall _ (mem_range.mpr (Nat.lt_of_not_le hlt))
    simp at hlast
  split
  · rfl
  split
  · next hcut =>
    obtain ⟨rfl, -⟩ | ⟨rfl, -⟩ := h
    · have hlt : (c :: str).length < len := by simpa using hcut
      rw [if_neg (fun h1 => by simp [h1] at hlt), if_neg fun hall => Nat.not_le.mpr hlt (hend hall)]
    · exact absurd hcut (by simp)
  next hcut =>
  split
  · rfl
  obtain ⟨hlong, hread, hsame⟩ : (c :: str).length ≤ (c :: mem).length ∧
      (len ≤ (c :: mem).length ∨ 0 ∈ c :: mem) ∧
      ∀ i < len, (c :: mem).getD i 0 = (c :: str).getD i 0 := by
    obtain ⟨rfl, rest, hmem⟩ | ⟨-, hmem⟩ := h
    · have hle : len ≤ (c :: str).length := by simpa using hcut
      rw [hmem, length_append]
      exact ⟨Nat.le_add_right _ _, .inl (by omega), fun i hi =>
        getD_append _ _ _ _ (Nat.lt_of_lt_of_le hi hle)⟩
    · rw [hmem]
      exact ⟨by simp, .inr (by simp), fun i _ => getD_nul _ i⟩
  have hhigh : ((range len).all fun j => (c :: mem).getD j 0 &&& 0x80 = 0x80) =
      (range len).all fun j => (c :: str).getD j 0 &&& 0x80 = 0x80 := by
    rw [Bool.eq_iff_iff, all_eq_true, all_eq_true]
    exact forall₂_congr fun i hi => by rw [hsame i (mem_range.mp hi)]
  rw [read_high_eq hread, hhigh, ok_bind]
  split
  · next hall =>
    have hchars : utf8_encoded_to_unichar (c :: mem) = utf8_encoded_to_unichar (c :: str) := by
      have hrest : (range (len - 1)).map (fun i => (c :: mem).getD (i + 1) 0) =
          (range (len - 1)).map fun i => (c :: str).getD (i + 1) 0 :=
        map_congr_left fun i hi => hsame (i + 1) (by have := mem_range.mp hi; omega)
      simp only [utf8_encoded_to_unichar, headD_cons, hlen, hrest]
    rw [read_unichar_eq (cons_ne_nil c mem)
      (by rw [headD_cons, hlen]; exact Nat.le_trans (hend hall) hlong), hchars, ok_bind]
    cases utf8_encoded_to_unichar (c :: str) with
    | none => rfl
    | some unichar => exact (apply_ite ok _ _ _).symm
  · rfl

/-! ## Section 2: Valid strings -/

/-- Encodings of valid code points, one after the other. -/
def Encoded (str : List UInt8) : Prop :=
  ∃ chs : List Nat, (∀ ch ∈ chs, ch ≠ 0 ∧ unichar_is_valid ch = true) ∧
    str = chs.flatMap utf8_encode_unichar

theorem encoded_nil : Encoded [] := ⟨[], by simp, rfl⟩

variable {c : UInt8} {str : List UInt8} {len : Nat}

/-- The first code point, and what comes behind it. -/
theorem Encoded.head (h : Encoded (c :: str)) : c ≠ 0 ∧ ∃ len,
    utf8_encoded_valid_unichar (c :: str) = some len ∧ Encoded ((c :: str).drop len) := by
  obtain ⟨chs, hchs, hstr⟩ := h
  cases chs with
  | nil => cases hstr
  | cons ch chs =>
    obtain ⟨⟨h0, hv⟩, hchs⟩ := forall_mem_cons.mp hchs
    have hlt : ch < 2097152 := Nat.lt_trans (lt_of_valid hv) (by decide)
    rw [flatMap_cons] at hstr
    refine ⟨?_, (utf8_encode_unichar ch).length, ?_, ?_⟩
    · rintro rfl
      obtain ⟨c, t, hct, hlow, hhigh⟩ := encode_head hlt
      obtain rfl : 0 = c := by
        rw [hct] at hstr
        exact (cons.inj hstr).1
      rcases Nat.lt_or_ge ch 128 with hch | hch
      · exact h0 (hlow hch).symm
      · exact absurd (hhigh hch) (by decide)
    · rw [hstr, valid_unichar_encode hlt, if_pos hv]
    · rw [hstr, drop_left]
      exact ⟨chs, hchs, rfl⟩

theorem Encoded.cons (hc : c ≠ 0) (hv : utf8_encoded_valid_unichar (c :: str) = some len)
    (h : Encoded ((c :: str).drop len)) : Encoded (c :: str) := by
  obtain ⟨ch, hch, -, htake⟩ := encode_of_valid_unichar (cons_ne_nil c str) hv
  obtain ⟨chs, hchs, hstr⟩ := h
  refine ⟨ch :: chs, forall_mem_cons.mpr ⟨⟨?_, hch⟩, hchs⟩, ?_⟩
  · rintro rfl
    have hpos := utf8_encoded_valid_unichar_pos hv
    obtain ⟨n, rfl⟩ := Nat.exists_eq_succ_of_ne_zero (Nat.ne_of_gt hpos)
    exact hc (cons.inj htake).1
  · rw [flatMap_cons, ← htake, ← hstr, take_append_drop]

theorem encoded_cons_iff (hc : c ≠ 0) (hv : utf8_encoded_valid_unichar (c :: str) = some len) :
    Encoded (c :: str) ↔ Encoded ((c :: str).drop len) := by
  refine ⟨fun h => ?_, Encoded.cons hc hv⟩
  obtain ⟨-, len', hv', hrest⟩ := h.head
  rw [hv] at hv'
  cases hv'
  exact hrest

/-! ## Section 3: Validation -/

theorem utf8_is_valid_n_encoded {fuel : Nat} (h : InMemory str mem limit)
    (h0 : limit = none → 0 ∉ str) (hfuel : str.length < fuel) :
    ∃ b, utf8_is_valid_n fuel mem limit = .ok b ∧ (b = true ↔ Encoded str) := by
  induction fuel generalizing str mem limit with
  | zero => exact absurd hfuel (Nat.not_lt_zero _)
  | succ fuel ih =>
    cases str with
    | nil =>
      refine ⟨true, ?_, iff_of_true rfl encoded_nil⟩
      obtain ⟨rfl, -⟩ | ⟨rfl, rfl⟩ := h
      · rfl
      · rfl
    | cons c r =>
      obtain ⟨m, rfl, hlimit⟩ : ∃ m, mem = c :: m ∧ limit ≠ some 0 := by
        obtain ⟨rfl, rest, rfl⟩ | ⟨rfl, rfl⟩ := h
        · exact ⟨r ++ rest, rfl, by simp⟩
        · exact ⟨r ++ [0], rfl, nofun⟩
      have hread := read_valid_unichar_eq h
      have hstep : utf8_is_valid_n (fuel + 1) (c :: m) limit =
          if c = 0 then .ok limit.isNone
          else match utf8_encoded_valid_unichar (c :: r) with
            | none => .ok false
            | some len => utf8_is_valid_n fuel ((c :: m).drop len) (limit.map (· - len)) := by
        rw [utf8_is_valid_n, hread]
        · rfl
        · exact hlimit
      rw [hstep]
      split
      · next hc =>
        refine ⟨false, ?_, iff_of_false Bool.false_ne_true fun he => he.head.1 hc⟩
        cases limit with
        | none => exact absurd (hc ▸ mem_cons_self) (h0 rfl)
        | some n => rfl
      next hc =>
      cases hv : utf8_encoded_valid_unichar (c :: r) with
      | none =>
        refine ⟨false, rfl, iff_of_false Bool.false_ne_true fun he => ?_⟩
        obtain ⟨-, len, hlen, -⟩ := he.head
        exact nomatch hv.symm.trans hlen
      | some len =>
        have hpos := utf8_encoded_valid_unichar_pos hv
        obtain ⟨ch, -, hlen, htake⟩ := encode_of_valid_unichar (cons_ne_nil c r) hv
        have hle : len ≤ (c :: r).length := by
          rw [hlen, ← htake]
          exact length_take_le' _ _
        rw [encoded_cons_iff hc hv]
        refine ih ?_ (fun hn hmem => h0 (Option.map_eq_none_iff.mp hn) (mem_of_mem_drop hmem))
          (by rw [length_drop]; omega)
        obtain ⟨rfl, rest, hm⟩ | ⟨rfl, hm⟩ := h
        · exact .inl ⟨by simp, rest, by rw [hm, drop_append_of_le_length hle]⟩
        · exact .inr ⟨rfl, by rw [hm, drop_append_of_le_length hle]⟩

/-- **UTF-8 validation**: with or without more behind it, a string of a length
    or with a NUL is valid when it is encodings of valid code points other than
    NUL; no byte behind it is read, and decoding returns a code point. -/
theorem utf8_validation (str : List UInt8) (fuel : Nat) (hfuel : str.length < fuel) :
    (∃ b, (∀ rest, utf8_is_valid_n fuel (str ++ rest) (some str.length) = .ok b) ∧
      (b = true ↔ Encoded str)) ∧
    (0 ∉ str → ∃ b, utf8_is_valid_n fuel (str ++ [0]) none = .ok b ∧ (b = true ↔ Encoded str)) ∧
    ∀ ch, unichar_is_valid ch = true →
      read_unichar (utf8_encode_unichar ch) = .ok (some ch) := by
  have hlimit : ∀ rest, ∃ b, utf8_is_valid_n fuel (str ++ rest) (some str.length) = .ok b ∧
      (b = true ↔ Encoded str) := fun rest =>
    utf8_is_valid_n_encoded (.inl ⟨rfl, rest, rfl⟩) nofun hfuel
  refine ⟨?_, fun h0 => utf8_is_valid_n_encoded (.inr ⟨rfl, rfl⟩) (fun _ => h0) hfuel,
    fun ch hv => ?_⟩
  · obtain ⟨b, -, hb⟩ := hlimit []
    refine ⟨b, fun rest => ?_, hb⟩
    obtain ⟨b', hrun, hb'⟩ := hlimit rest
    rw [hrun, Bool.eq_iff_iff.mpr (hb'.trans hb.symm)]
  · have hlt : ch < 2097152 := Nat.lt_trans (lt_of_valid hv) (by decide)
    have hdec := to_unichar_encode hlt []
    rw [append_nil] at hdec
    rw [read_unichar_eq (encode_ne_nil hlt) (Nat.le_of_eq (expected_len_encode hlt)), hdec]

theorem utf8_validation_word : ∃ b, utf8_is_valid_n 4 (ascii "abc" ++ [0]) none = .ok b ∧
    (b = true ↔ Encoded (ascii "abc")) :=
  (utf8_validation (ascii "abc") 4 (by decide)).2.1 (by decide)

/-- The NUL is read, to see that the string ends. -/
theorem utf8_reads_nul : ¬ ∀ str : List UInt8, 0 ∉ str →
    utf8_is_valid_n (str.length + 1) str none ≠ .abort :=
  fun h => h [] (by simp) rfl

end SdCompat
