import Mathlib.Data.Nat.Digits.Lemmas
import SdCompat.SdJson.Format
import SdCompat.SdJson.Grammar

/-! # The texts json_format writes

    Integers, strings and whole variants: each text is in the grammar, and
    denotes what was written. An integer that is not negative has the text of
    an unsigned integer, and a string may hold any byte but NUL and 0x7f.
-/

namespace SdCompat.Json

open List Variant Nat Number

/-! ## Section 1: Integers -/

variable {u : Nat}

/-- The last digit of a number. -/
theorem print_unsigned_step (hu : 10 ≤ u) :
    print_unsigned u = print_unsigned (u / 10) ++ [(48 + u % 10).toUInt8] := by
  have hq : u / 10 ≠ 0 := by omega
  rw [print_unsigned, print_unsigned, if_neg (by omega), if_neg hq,
    digits_def' (by decide) (by omega)]
  simp

theorem print_unsigned_small (hu : u < 10) : print_unsigned u = [(48 + u).toUInt8] := by
  have hall : ∀ n : Fin 10, print_unsigned n.val = [(48 + n.val).toUInt8] := by decide +kernel
  exact hall ⟨u, hu⟩

variable {d : Nat}

theorem digit_char (hd : d < 10) :
    is_digit (48 + d).toUInt8 = true ∧ digit (48 + d).toUInt8 = d ∧ ((48 + d).toUInt8 = 48 → d = 0) := by
  have hall : ∀ n : Fin 10, is_digit (48 + n.val).toUInt8 = true ∧
      digit (48 + n.val).toUInt8 = n.val ∧ ((48 + n.val).toUInt8 = 48 → n.val = 0) := by decide +kernel
  exact hall ⟨d, hd⟩

/-- What is printed are digits, without a leading zero, and they are the
    digits of the number. -/
theorem print_unsigned_digits (u : Nat) : Digits (print_unsigned u) ∧
      ((print_unsigned u).head? = some 48 → print_unsigned u = [48]) ∧
      digits_value (print_unsigned u) = u := by
  induction u using Nat.strongRecOn with
  | ind u ih =>
    by_cases hu : u < 10
    · have hd := digit_char hu
      rw [print_unsigned_small hu]
      refine ⟨⟨by simp, by simpa using hd.1⟩, fun h => ?_, ?_⟩
      · simpa using h
      · simpa [digits_value] using hd.2.1
    · have hd := digit_char (d := u % 10) (Nat.mod_lt _ (by decide))
      obtain ⟨⟨hne, hdigits⟩, hhead, hval⟩ := ih (u / 10) (by omega)
      rw [print_unsigned_step (by omega)]
      refine ⟨⟨by simp, ?_⟩, fun h => ?_, ?_⟩
      · intro c hc
        rcases mem_append.mp hc with hc | hc
        · exact hdigits c hc
        · rw [mem_singleton.mp hc]
          exact hd.1
      · -- the rest of the number is not zero, so it does not start with a zero
        obtain ⟨c, r, hcr⟩ := exists_cons_of_ne_nil hne
        rw [hcr, cons_append] at h
        have hzero := hhead (by rw [hcr]; exact h)
        rw [hzero] at hval
        have : digits_value [48] = 0 := by decide
        omega
      · rw [digits_value_concat, hd.2.1]
        omega

variable {R : Type} [Double R]

/-- The text of an unsigned integer. -/
theorem value_print_unsigned (hu : u < 2 ^ 64) :
    Value (R := R) d (print_unsigned u) (.unsigned u) := by
  obtain ⟨hdigits, hhead, hval⟩ := print_unsigned_digits u
  have hn : WellFormed ⟨false, print_unsigned u, none, none⟩ :=
    ⟨⟨hdigits, hhead⟩, by simp, by simp⟩
  have hvalue := Value.unsigned (R := R) (d := d) hn rfl rfl rfl (by rw [hval]; exact hu)
  simpa [text, fraction_text, exponent_text, hval] using hvalue

/-- The text of an integer, which comes back as an unsigned one when it is not
    negative. -/
theorem value_print_integer {i : Int} (hmin : INT64_MIN ≤ i) (hmax : i ≤ INT64_MAX) :
    Value (R := R) d (print_integer i) (if i < 0 then .integer i else .unsigned i.natAbs) := by
  have hbounds : INT64_MIN = -2 ^ 63 ∧ INT64_MAX = 2 ^ 63 - 1 := ⟨rfl, rfl⟩
  rw [print_integer]
  split
  · next hneg =>
    obtain ⟨hdigits, hhead, hval⟩ := print_unsigned_digits i.natAbs
    have hn : WellFormed ⟨true, print_unsigned i.natAbs, none, none⟩ :=
      ⟨⟨hdigits, hhead⟩, by simp, by simp⟩
    have hfits : i.natAbs ≤ 2 ^ 63 := by omega
    have hi : -(i.natAbs : Int) = i := by omega
    have hvalue := Value.integer (R := R) (d := d) hn rfl rfl rfl (by rw [hval]; exact hfits)
    simp only [text, fraction_text, exponent_text, hval, hi, if_true,
      append_nil, singleton_append] at hvalue
    exact hvalue
  · exact value_print_unsigned (by omega)

/-! ## Section 2: Strings -/

/-- A string that survives: no NUL ends it, and it has no 0x7f, which the
    formatter does not escape. -/
def Printable (s : List UInt8) : Prop := (0 : UInt8) ∉ s ∧ (127 : UInt8) ∉ s

variable {s : List UInt8}

/-- Valid UTF-8 is the encodings of code points, one after the other. -/
theorem valid_induction {P : List UInt8 → Prop} (nil : P [])
    (cons : ∀ ch s, unichar_is_valid ch = true → P s → P (utf8_encode_unichar ch ++ s))
    (hs : utf8_is_valid s = true) : P s := by
  induction hn : s.length using Nat.strongRecOn generalizing s with
  | ind n ih =>
    cases s with
    | nil => exact nil
    | cons c r =>
      cases hv : utf8_encoded_valid_unichar (c :: r) with
      | none => simp [utf8_is_valid, utf8_is_valid_loop, hv] at hs
      | some len =>
        obtain ⟨ch, hch, -, htake⟩ := encode_of_valid_unichar (by simp) hv
        have hlt : ch < 2097152 := Nat.lt_of_lt_of_le (lt_of_valid hch) (by decide)
        have hsplit : c :: r = utf8_encode_unichar ch ++ (c :: r).drop len := by
          rw [← htake, take_append_drop]
        rw [hsplit] at hs ⊢
        rw [utf8_is_valid_encode_append hlt, Bool.and_eq_true] at hs
        have hpos := encode_pos hlt
        have hlen : (c :: r).length = (utf8_encode_unichar ch).length + ((c :: r).drop len).length := by
          conv_lhs => rw [hsplit]
          exact length_append
        exact cons ch _ hch (ih _ (by omega) hs.2 rfl)

/-- The digits of an escape. -/
theorem hex4_print {n : Nat} (hn : n < 65536) :
    Hex4 [print_hex (n / 4096 % 16), print_hex (n / 256 % 16), print_hex (n / 16 % 16),
      print_hex (n % 16)] n := by
  have hall : ∀ d : Fin 16, unhexchar (print_hex d.val) = some d.val.toUInt8 ∧
      d.val.toUInt8.toNat = d.val := by decide +kernel
  have hdigit : ∀ d : Nat, unhexchar (print_hex (d % 16)) = some (d % 16).toUInt8 ∧
      (d % 16).toUInt8.toNat = d % 16 := fun d => hall ⟨d % 16, mod_lt _ (by decide)⟩
  have h := Hex4.digits (hdigit (n / 4096)).1 (hdigit (n / 256)).1 (hdigit (n / 16)).1 (hdigit n).1
  rw [(hdigit (n / 4096)).2, (hdigit (n / 256)).2, (hdigit (n / 16)).2, (hdigit n).2] at h
  have hsum : ((n / 4096 % 16 * 16 + n / 256 % 16) * 16 + n / 16 % 16) * 16 + n % 16 = n := by omega
  rwa [hsum] at h

/-- The ways a byte is written. -/
theorem format_char_cases (q : UInt8) :
    (json_format_char q = [q] ∧ 32 ≤ q.toNat ∧ q.toNat ≠ 34 ∧ q.toNat ≠ 92) ∨
      (json_format_char q = print_escape q.toNat ∧ q.toNat < 32) ∨
      ∃ p ∈ short_escapes, json_format_char q = [92, p.1] ∧ q = p.2 :=
  forall_byte (P := fun q => (json_format_char q = [q] ∧ 32 ≤ q.toNat ∧ q.toNat ≠ 34 ∧ q.toNat ≠ 92) ∨
      (json_format_char q = print_escape q.toNat ∧ q.toNat < 32) ∨
      ∃ p ∈ short_escapes, json_format_char q = [92, p.1] ∧ q = p.2) (by decide +kernel) q

/-- A character of ASCII is written as a character of a string. -/
theorem format_char_ascii {q : UInt8} (hq : q.toNat < 128) (h0 : q ≠ 0) (h127 : q ≠ 127) :
    StringChar (json_format_char q) [q] := by
  have henc := encode_ascii hq
  have hvalid := unichar_is_valid_ascii hq
  have hne : q.toNat ≠ 0 := fun h => h0 (UInt8.toNat_inj.mp h)
  have hdel : q.toNat ≠ 127 := fun h => h127 (UInt8.toNat_inj.mp h)
  rcases format_char_cases q with ⟨hc, hctrl, hquote, hback⟩ | ⟨hc, hctrl⟩ | ⟨p, hp, hc, rfl⟩
  · have h := StringChar.plain hvalid hctrl hdel hquote hback
    rw [henc] at h
    rwa [hc]
  · have hs : utf16_is_surrogate q.toNat = false := by
      simp [utf16_is_surrogate]
      omega
    have h := StringChar.unicode (hex4_print (n := q.toNat) (by omega)) hne hs hvalid
    rw [henc] at h
    rw [hc]
    exact h
  · rw [hc]
    exact .short hp

/-- The bytes of a character that is not ASCII are written as they are. -/
theorem format_encode {ch : Nat} (hch : 128 ≤ ch) :
    (utf8_encode_unichar ch).flatMap json_format_char = utf8_encode_unichar ch := by
  have hsame : ∀ c ∈ utf8_encode_unichar ch, json_format_char c = [c] := by
    intro c hc
    have hhigh := encode_high hch hc
    rcases format_char_cases c with ⟨h, -⟩ | ⟨-, h⟩ | ⟨p, hp, -, rfl⟩
    · exact h
    · omega
    · have hall : (short_escapes.all fun p => p.2.toNat < 128) = true := by decide +kernel
      have := of_decide_eq_true (all_eq_true.mp hall p hp)
      omega
  rw [flatMap_congr hsame]
  simp

/-- What is written of a character is a character of a string. -/
theorem format_char_text {ch : Nat} (hv : unichar_is_valid ch = true)
    (hp : Printable (utf8_encode_unichar ch)) :
    StringChar ((utf8_encode_unichar ch).flatMap json_format_char) (utf8_encode_unichar ch) := by
  by_cases hch : ch < 128
  · have hc : (UInt8.ofNat ch).toNat = ch := toNat_ofNat_byte (by omega)
    have henc : utf8_encode_unichar ch = [UInt8.ofNat ch] := by
      rw [utf8_encode_unichar_eq, if_pos hch]
    rw [henc] at hp ⊢
    rw [flatMap_singleton]
    exact format_char_ascii (by omega) (fun h => hp.1 (by simp [h])) (fun h => hp.2 (by simp [h]))
  · rw [format_encode (by omega)]
    exact .plain hv (by omega) (by omega) (by omega) (by omega)

/-- The text of a string. -/
theorem string_text (hs : utf8_is_valid s = true) (hp : Printable s) :
    StringText (json_format_string s) s := by
  refine ⟨s.flatMap json_format_char, rfl, ?_⟩
  refine valid_induction (P := fun s => Printable s → StringChars (s.flatMap json_format_char) s)
    (fun _ => .nil) ?_ hs hp
  intro ch s hch ih hp
  rw [flatMap_append]
  have hmem : Printable (utf8_encode_unichar ch) ∧ Printable s := by
    simpa [Printable, and_and_and_comm] using hp
  exact .cons (format_char_text hch hmem.1) (ih hmem.2)

/-! ## Section 3: Variants -/

namespace Variant

omit [Double R]

mutual
/-- How many brackets are nested in the text of a variant. For an empty array
    or object there is a pair, though it has no depth. -/
def brackets : Variant R → Nat
  | array l => brackets_elements l + 1
  | object l => brackets_pairs l + 1
  | _ => 0

def brackets_elements : List (Variant R) → Nat
  | [] => 0
  | v :: l => max v.brackets (brackets_elements l)

def brackets_pairs : List (List UInt8 × Variant R) → Nat
  | [] => 0
  | (_, v) :: l => max v.brackets (brackets_pairs l)
end

mutual
/-- The strings in a variant, with the keys of its objects. -/
def strings : Variant R → List (List UInt8)
  | string s => [s]
  | array l => strings_elements l
  | object l => strings_pairs l
  | _ => []

def strings_elements : List (Variant R) → List (List UInt8)
  | [] => []
  | v :: l => v.strings ++ strings_elements l

def strings_pairs : List (List UInt8 × Variant R) → List (List UInt8)
  | [] => []
  | (k, v) :: l => k :: v.strings ++ strings_pairs l
end

mutual
/-- What the text of a variant denotes: its integers that are not negative
    are unsigned ones then. -/
def reparsed : Variant R → Variant R
  | integer i => if i < 0 then integer i else unsigned i.natAbs
  | array l => array (reparsed_elements l)
  | object l => object (reparsed_pairs l)
  | v => v

def reparsed_elements : List (Variant R) → List (Variant R)
  | [] => []
  | v :: l => v.reparsed :: reparsed_elements l

def reparsed_pairs : List (List UInt8 × Variant R) → List (List UInt8 × Variant R)
  | [] => []
  | (k, v) :: l => (k, v.reparsed) :: reparsed_pairs l
end

variable {l : List (Variant R)} {v : Variant R}

theorem brackets_le_elements (h : v ∈ l) : v.brackets ≤ brackets_elements l := by
  induction l with
  | nil => cases h
  | cons w l ih =>
    rcases mem_cons.mp h with rfl | h
    · exact le_max_left _ _
    · exact le_trans (ih h) (le_max_right _ _)

variable {m : List UInt8 × Variant R}

theorem brackets_le_pairs {l : List (List UInt8 × Variant R)} (h : m ∈ l) :
    m.2.brackets ≤ brackets_pairs l := by
  induction l with
  | nil => cases h
  | cons w l ih =>
    rcases mem_cons.mp h with rfl | h
    · exact le_max_left _ _
    · exact le_trans (ih h) (le_max_right _ _)

variable {s : List UInt8}

theorem strings_sub_elements (h : v ∈ l) (hs : s ∈ v.strings) : s ∈ strings_elements l := by
  induction l with
  | nil => cases h
  | cons w l ih =>
    rcases mem_cons.mp h with rfl | h
    · exact mem_append_left _ hs
    · exact mem_append_right _ (ih h)

theorem strings_sub_pairs {l : List (List UInt8 × Variant R)} (h : m ∈ l)
    (hs : s = m.1 ∨ s ∈ m.2.strings) : s ∈ strings_pairs l := by
  induction l with
  | nil => cases h
  | cons w l ih =>
    rw [strings_pairs]
    rcases mem_cons.mp h with rfl | h
    · rcases hs with rfl | hs
      · simp
      · simp [hs]
    · exact mem_append_right _ (ih h)

end Variant

/-- What a variant without real numbers that the constructors make is like:
    integers in range, and strings that are valid and without NUL. -/
inductive Proper : Variant R → Prop where
  | null : Proper .null
  | boolean (b : Bool) : Proper (.boolean b)
  | integer {i : Int} (hmin : INT64_MIN ≤ i) (hmax : i ≤ INT64_MAX) : Proper (.integer i)
  | unsigned {u : Nat} (h : u ≤ UINT64_MAX) : Proper (.unsigned u)
  | string {s : List UInt8} (hv : utf8_is_valid s = true) (hnul : (0 : UInt8) ∉ s) :
      Proper (.string s)
  | array {l : List (Variant R)} (h : ∀ e ∈ l, Proper e) : Proper (.array l)
  | object {l : List (List UInt8 × Variant R)}
      (hk : ∀ m ∈ l, utf8_is_valid m.1 = true ∧ (0 : UInt8) ∉ m.1) (h : ∀ m ∈ l, Proper m.2) :
      Proper (.object l)

section text
variable [DoubleFormat R] (pretty : Bool) {pre2 : List UInt8}

variable {pre : List UInt8}

/-- The line break of pretty printing. -/
theorem ws_break (hpre : Ws pre) : Ws (if pretty then 10 :: pre else []) := by
  cases pretty with
  | false => exact Ws.nil
  | true => exact Ws.append (w := [10]) (by simp [Ws, is_whitespace]) hpre

theorem ws_indent (hpre : Ws pre2) : Ws (if pretty then pre2 else []) := by
  cases pretty with
  | false => exact Ws.nil
  | true => exact hpre

theorem ws_deeper (hpre : Ws pre) : Ws (if pretty then pre ++ [9] else pre) := by
  cases pretty with
  | false => exact hpre
  | true => exact hpre.append (by simp [Ws, is_whitespace])

omit [Double R] in
/-- After the first element, the loop writes a comma first. -/
theorem format_elements_next (e : Variant R) (l : List (Variant R)) :
    json_format_elements pretty pre2 false (e :: l) =
      44 :: ((if pretty then [10] else []) ++ json_format_elements pretty pre2 true (e :: l)) := by
  cases pretty with
  | false => simp [json_format_elements, ascii]
  | true => simp [json_format_elements, ascii]

omit [Double R] in
theorem format_pairs_next (m : List UInt8 × Variant R) (l : List (List UInt8 × Variant R)) :
    json_format_pairs pretty pre2 false (m :: l) =
      44 :: ((if pretty then [10] else []) ++ json_format_pairs pretty pre2 true (m :: l)) := by
  cases pretty with
  | false => simp [json_format_pairs, ascii]
  | true => simp [json_format_pairs, ascii]

variable {d : Nat} {tail : List UInt8}

/-- The elements of an array are written as the grammar has them. -/
theorem elements_text (hpre : Ws pre2) (htail : Ws tail) {l : List (Variant R)} (hne : l ≠ [])
    (h : ∀ e ∈ l, Value d (json_format pretty pre2 e) e.reparsed) :
    Elements d ((if pretty then [10] else []) ++ (json_format_elements pretty pre2 true l ++ tail))
      (Variant.reparsed_elements l) := by
  have hbreak : Ws ((if pretty then [10] else []) ++ if pretty then pre2 else []) :=
    Ws.append (ws_break pretty Ws.nil) (ws_indent pretty hpre)
  induction l with
  | nil => exact (hne rfl).elim
  | cons e l ih =>
    have he := h e (by simp)
    rw [reparsed_elements]
    cases l with
    | nil =>
      have h := Elements.one hbreak he htail
      simpa [json_format_elements, reparsed_elements] using h
    | cons e' l =>
      have hl := ih (by simp) fun x hx => h x (mem_cons_of_mem _ hx)
      have h := Elements.cons hbreak he Ws.nil hl
      rw [json_format_elements, format_elements_next]
      simpa using h

/-- The members of an object are written as the grammar has them. -/
theorem members_text (hpre : Ws pre2) (htail : Ws tail) {l : List (List UInt8 × Variant R)}
    (hne : l ≠ []) (hk : ∀ m ∈ l, StringText (json_format_string m.1) m.1)
    (h : ∀ m ∈ l, Value d (json_format pretty pre2 m.2) m.2.reparsed) :
    Members d ((if pretty then [10] else []) ++ (json_format_pairs pretty pre2 true l ++ tail))
      (Variant.reparsed_pairs l) := by
  have hbreak : Ws ((if pretty then [10] else []) ++ if pretty then pre2 else []) :=
    Ws.append (ws_break pretty Ws.nil) (ws_indent pretty hpre)
  have hspace : Ws (if pretty then [32] else []) := ws_indent pretty (by simp [Ws, is_whitespace])
  have hcolon : (if pretty then ascii " : " else ascii ":") =
      (if pretty then [32] else []) ++ 58 :: if pretty then [32] else [] := by
    cases pretty with
    | false => rfl
    | true => rfl
  induction l with
  | nil => exact (hne rfl).elim
  | cons m l ih =>
    obtain ⟨k, v⟩ := m
    have hkey := hk (k, v) (by simp)
    have hv := h (k, v) (by simp)
    rw [reparsed_pairs]
    cases l with
    | nil =>
      have h := Members.one hbreak hkey hspace hspace hv htail
      rw [json_format_pairs, hcolon]
      simpa [json_format_pairs, reparsed_pairs] using h
    | cons m' l =>
      have hl := ih (by simp) (fun x hx => hk x (mem_cons_of_mem _ hx))
        fun x hx => h x (mem_cons_of_mem _ hx)
      have h := Members.cons hbreak hkey hspace hspace hv Ws.nil hl
      rw [json_format_pairs, hcolon, format_pairs_next]
      simpa using h

/-- The text of a proper variant, with enough room for its brackets. -/
theorem Proper.text {v : Variant R} (h : Proper v) (hpre : Ws pre)
    (hstrings : ∀ s ∈ v.strings, (127 : UInt8) ∉ s) (hd : v.brackets ≤ d) :
    Value d (json_format pretty pre v) v.reparsed := by
  induction h generalizing d pre with
  | null => rw [json_format]; exact .null
  | boolean b =>
    cases b with
    | false => exact .false
    | true => exact .true
  | integer hmin hmax => rw [reparsed]; exact value_print_integer hmin hmax
  | unsigned h =>
    have hmax : UINT64_MAX = 2 ^ 64 - 1 := rfl
    exact value_print_unsigned (by omega)
  | string hv hnul =>
    exact .string (string_text hv ⟨hnul, hstrings _ (by simp [strings])⟩)
  | @array l h ih =>
    obtain ⟨d, rfl⟩ : ∃ k, d = k + 1 := ⟨d - 1, by rw [brackets] at hd; omega⟩
    cases l with
    | nil => rw [json_format]; exact .array_empty Ws.nil
    | cons e l =>
      have hels := elements_text pretty (ws_deeper pretty hpre) (ws_break pretty hpre)
        (cons_ne_nil e l) fun x hx => ih x hx (ws_deeper pretty hpre)
          (fun s hs => hstrings s (strings_sub_elements hx hs))
          (le_trans (brackets_le_elements hx) (le_of_succ_le_succ hd))
      rw [json_format, reparsed]
      simpa using Value.array hels
  | @object l hk h ih =>
    obtain ⟨d, rfl⟩ : ∃ k, d = k + 1 := ⟨d - 1, by rw [brackets] at hd; omega⟩
    cases l with
    | nil => rw [json_format]; exact .object_empty Ws.nil
    | cons m l =>
      have hmem := members_text pretty (ws_deeper pretty hpre) (ws_break pretty hpre)
        (cons_ne_nil m l)
        (fun x hx => string_text (hk x hx).1
          ⟨(hk x hx).2, hstrings _ (strings_sub_pairs hx (.inl rfl))⟩)
        fun x hx => ih x hx (ws_deeper pretty hpre)
          (fun s hs => hstrings s (strings_sub_pairs hx (.inr hs)))
          (le_trans (brackets_le_pairs hx) (le_of_succ_le_succ hd))
      rw [json_format, reparsed]
      simpa using Value.object hmem

end text

end SdCompat.Json
