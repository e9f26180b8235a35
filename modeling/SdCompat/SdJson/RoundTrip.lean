import SdCompat.SdJson.FormatText
import SdCompat.SdJson.ParseComplete

/-! # Formatting and parsing again

    A variant that the constructors make, without real numbers, comes back
    from its text when no string in it has the character 0x7f, which the
    formatter writes as it is and the parser refuses, and when there are not
    more than `DEPTH_MAX` brackets around each other in the text: the
    constructors do not count an empty array or object, the parser does.
-/

namespace SdCompat.Json

open List Outcome Nat Variant

variable {R : Type}

/-! ## Section 1: Variants the constructors make -/

/-- The variants without real numbers that the public constructors make. -/
inductive Built : Variant R → Prop where
  | string {s : List UInt8} {v : Variant R} (hnul : (0 : UInt8) ∉ s)
      (h : sd_json_variant_new_string s = .ok v) : Built v
  | integer {i : Int} (hmin : INT64_MIN ≤ i) (hmax : i ≤ INT64_MAX) :
      Built (sd_json_variant_new_integer i)
  | unsigned {u : Nat} (h : u ≤ UINT64_MAX) : Built (sd_json_variant_new_unsigned u)
  | boolean (b : Bool) : Built (sd_json_variant_new_boolean b)
  | null : Built sd_json_variant_new_null
  | array {l : List (Variant R)} {v : Variant R} (hl : ∀ e ∈ l, Built e)
      (h : sd_json_variant_new_array l = .ok v) : Built v
  | object {l : List (Variant R)} {v : Variant R} (hl : ∀ e ∈ l, Built e)
      (h : sd_json_variant_new_object l = .ok v) : Built v

variable {l : List (List UInt8 × Variant R)}

variable {els : List (Variant R)}

/-- An object is made of keys and values in turn. -/
theorem put_pairs_eq_ok {acc : List (List UInt8 × Variant R)}
    (h : json_variant_object_put_elements acc els = .ok l) :
    ∃ l', els = flat l' ∧ l = acc ++ l' := by
  fun_induction json_variant_object_put_elements acc els with
  | case1 => simp at h
  | case2 acc k c els hd ih =>
    obtain ⟨l', hels, rfl⟩ := ih h
    exact ⟨(k, c) :: l', by rw [hels, flat_cons], by simp⟩
  | case3 acc =>
    obtain rfl := ok.inj h
    exact ⟨[], rfl, by simp⟩
  | case4 => simp at h

variable {v : Variant R}

theorem new_object_eq_ok (h : sd_json_variant_new_object els = .ok v) :
    ∃ l, els = flat l ∧ v = .object l := by
  unfold sd_json_variant_new_object at h
  split at h
  · simp at h
  · obtain ⟨l, hl, hv⟩ := bind_eq_ok.mp h
    obtain ⟨l', hels, hl'⟩ := put_pairs_eq_ok hl
    rw [nil_append] at hl'
    exact ⟨l, by rw [hels, hl'], (ok.inj hv).symm⟩

theorem mem_flat {m : List UInt8 × Variant R} (h : m ∈ l) :
    .string m.1 ∈ flat l ∧ m.2 ∈ flat l := by
  induction l with
  | nil => cases h
  | cons m' l ih =>
    rcases mem_cons.mp h with rfl | h
    · simp
    · have := ih h
      simp [this.1, this.2]

/-- What the constructors make has integers in range and proper strings. -/
theorem Built.proper (h : Built v) : Proper v := by
  induction h with
  | string hnul h =>
    obtain ⟨hv, rfl⟩ := new_string_eq_ok.mp h
    exact .string hv hnul
  | integer hmin hmax => exact .integer hmin hmax
  | unsigned h => exact .unsigned h
  | boolean b => exact .boolean b
  | null => exact .null
  | array hl h ih =>
    rw [new_array_eq] at h
    split at h
    · obtain rfl := ok.inj h
      exact .array ih
    · simp at h
  | object hl h ih =>
    obtain ⟨l, rfl, rfl⟩ := new_object_eq_ok h
    refine .object (fun m hm => ?_) fun m hm => ih _ (mem_flat hm).2
    cases ih _ (mem_flat hm).1 with
    | string hv hnul => exact ⟨hv, hnul⟩

/-! ## Section 2: Equality up to the type of integers -/

namespace Variant

mutual
/-- A variant with every integer in the signed type, so that equal numbers are
    equal. -/
def plain : Variant R → Variant R
  | unsigned u => integer u
  | array l => array (plain_elements l)
  | object l => object (plain_pairs l)
  | v => v

def plain_elements : List (Variant R) → List (Variant R)
  | [] => []
  | v :: l => v.plain :: plain_elements l

def plain_pairs : List (List UInt8 × Variant R) → List (List UInt8 × Variant R)
  | [] => []
  | (k, v) :: l => (k, v.plain) :: plain_pairs l
end

mutual
theorem plain_reparsed (v : Variant R) : v.reparsed.plain = v.plain := by
  cases v with
  | integer i =>
    rw [reparsed]
    split
    · rfl
    · simp only [plain, integer.injEq]
      omega
  | array l => rw [reparsed, plain, plain, plain_reparsed_elements]
  | object l => rw [reparsed, plain, plain, plain_reparsed_pairs]
  | _ => rfl

theorem plain_reparsed_elements (l : List (Variant R)) :
    plain_elements (reparsed_elements l) = plain_elements l := by
  cases l with
  | nil => rfl
  | cons v l =>
    rw [reparsed_elements, plain_elements, plain_elements, plain_reparsed, plain_reparsed_elements]

theorem plain_reparsed_pairs (l : List (List UInt8 × Variant R)) :
    plain_pairs (reparsed_pairs l) = plain_pairs l := by
  cases l with
  | nil => rfl
  | cons m l =>
    obtain ⟨k, v⟩ := m
    rw [reparsed_pairs, plain_pairs, plain_pairs, plain_reparsed, plain_reparsed_pairs]
end

mutual
/-- The brackets are the same. -/
theorem brackets_plain (v : Variant R) : v.plain.brackets = v.brackets := by
  cases v with
  | array l => rw [plain, brackets, brackets, brackets_plain_elements]
  | object l => rw [plain, brackets, brackets, brackets_plain_pairs]
  | _ => rfl

theorem brackets_plain_elements (l : List (Variant R)) :
    brackets_elements (plain_elements l) = brackets_elements l := by
  cases l with
  | nil => rfl
  | cons v l =>
    rw [plain_elements, brackets_elements, brackets_elements, brackets_plain, brackets_plain_elements]

theorem brackets_plain_pairs (l : List (List UInt8 × Variant R)) :
    brackets_pairs (plain_pairs l) = brackets_pairs l := by
  cases l with
  | nil => rfl
  | cons m l =>
    obtain ⟨k, v⟩ := m
    rw [plain_pairs, brackets_pairs, brackets_pairs, brackets_plain, brackets_plain_pairs]
end

end Variant

/-! ## Section 3: What no text has -/

section grammar
variable [Double R]

mutual
/-- A value has no more brackets than its text. -/
theorem Value.brackets_le {d : Nat} {t : List UInt8} {v : Variant R} (h : Value d t v) :
    v.brackets ≤ d := by
  cases h with
  | @number _ n hn =>
    have hscalar : ∀ tok : Token R, tok.number.brackets = 0 := by
      intro tok
      cases tok with
      | real x =>
        show (sd_json_variant_new_real x).brackets = 0
        unfold sd_json_variant_new_real
        cases Double.fpclassify x
        all_goals rfl
      | _ => rfl
    rw [hscalar]
    exact zero_le _
  | array_empty => exact le_add_left _ _
  | array h => exact succ_le_succ h.brackets_le
  | object_empty => exact le_add_left _ _
  | object h => exact succ_le_succ h.brackets_le
  | _ => exact zero_le _

theorem Elements.brackets_le {d : Nat} {t : List UInt8} {l : List (Variant R)}
    (h : Elements d t l) : brackets_elements l ≤ d := by
  cases h with
  | one hw hv hw' => simpa [brackets_elements] using hv.brackets_le
  | cons hw hv hw' h => simpa [brackets_elements] using ⟨hv.brackets_le, h.brackets_le⟩

theorem Members.brackets_le {d : Nat} {t : List UInt8} {l : List (List UInt8 × Variant R)}
    (h : Members d t l) : brackets_pairs l ≤ d := by
  cases h with
  | one hw1 hk hw2 hw3 hv hw4 => simpa [brackets_pairs] using hv.brackets_le
  | cons hw1 hk hw2 hw3 hv hw4 h =>
    simpa [brackets_pairs] using ⟨hv.brackets_le, h.brackets_le⟩
end

/-- No text of the grammar has a NUL or the character 0x7f. -/
def NoDel (t : List UInt8) : Prop := ∀ c ∈ t, c ≠ 0 ∧ c ≠ 127

variable {t : List UInt8}

theorem NoDel.of_all (h : (t.all fun c => c != 0 && c != 127) = Bool.true) : NoDel t := by
  intro c hc
  have hb := all_eq_true.mp h c hc
  rwa [Bool.and_eq_true, bne_iff_ne, bne_iff_ne] at hb

theorem NoDel.append {t' : List UInt8} (h : NoDel t) (h' : NoDel t') : NoDel (t ++ t') := by
  intro c hc
  rcases mem_append.mp hc with hc | hc
  · exact h c hc
  · exact h' c hc

theorem NoDel.cons {c : UInt8} (hc : c ≠ 0 ∧ c ≠ 127) (h : NoDel t) : NoDel (c :: t) := by
  intro b hb
  rcases mem_cons.mp hb with rfl | hb
  · exact hc
  · exact h b hb

theorem NoDel.nil : NoDel [] := by simp [NoDel]

theorem Ws.noDel {w : List UInt8} (h : Ws w) : NoDel w := by
  have hall : ∀ c : UInt8, is_whitespace c = true → c ≠ 0 ∧ c ≠ 127 := fun c =>
    forall_byte (P := fun c => is_whitespace c = true → c ≠ 0 ∧ c ≠ 127) (by decide +kernel) c
  exact fun c hc => hall c (h c hc)

theorem Digits.noDel (h : Digits t) : NoDel t := by
  have hall : ∀ c : UInt8, is_digit c = true → c ≠ 0 ∧ c ≠ 127 := fun c =>
    forall_byte (P := fun c => is_digit c = true → c ≠ 0 ∧ c ≠ 127) (by decide +kernel) c
  exact fun c hc => hall c (h.2 c hc)

theorem Hex4.noDel {h : List UInt8} {x : Nat} (hx : Hex4 h x) : NoDel h := by
  have hall : ∀ c : UInt8, (unhexchar c).isSome = true → c ≠ 0 ∧ c ≠ 127 := fun c =>
    forall_byte (P := fun c => (unhexchar c).isSome = true → c ≠ 0 ∧ c ≠ 127) (by decide +kernel) c
  cases hx with
  | digits ha hb hc hd =>
    exact .cons (hall _ (by rw [ha]; rfl)) (.cons (hall _ (by rw [hb]; rfl))
      (.cons (hall _ (by rw [hc]; rfl)) (.cons (hall _ (by rw [hd]; rfl)) .nil)))

theorem StringChar.noDel {b : List UInt8} (h : StringChar t b) : NoDel t := by
  cases h with
  | @plain ch hv hctrl hdel hquote hback =>
    intro c hc
    by_cases hch : ch < 128
    · rw [utf8_encode_unichar_eq, if_pos hch, mem_singleton] at hc
      have hnat : c.toNat = ch := by rw [hc, toNat_ofNat_byte (by omega)]
      exact ⟨by rintro rfl; simp at hnat; omega, by rintro rfl; simp at hnat; omega⟩
    · have hhigh := encode_high (by omega) hc
      exact ⟨by rintro rfl; simp at hhigh, by rintro rfl; simp at hhigh⟩
  | @short e b h =>
    have hall : (short_escapes.all fun p => p.1 != 0 && p.1 != 127) = true := by decide +kernel
    have hb := all_eq_true.mp hall _ h
    rw [Bool.and_eq_true, bne_iff_ne, bne_iff_ne] at hb
    exact .cons (by decide) (.cons hb .nil)
  | unicode hx => exact .cons (by decide) (.cons (by decide) hx.noDel)
  | pair hx hy =>
    exact .append (.cons (by decide) (.cons (by decide) hx.noDel))
      (.cons (by decide) (.cons (by decide) hy.noDel))

theorem StringText.noDel {s : List UInt8} (h : StringText t s) : NoDel t := by
  obtain ⟨body, rfl, hbody⟩ := h
  have hchars : NoDel body := by
    induction hbody with
    | nil => exact .nil
    | cons hc _ ih => exact hc.noDel.append ih
  exact .append (.cons (by decide) hchars) (.cons (by decide) .nil)

theorem Number.noDel {n : Number} (hn : n.WellFormed) : NoDel n.text := by
  have hsign : NoDel (if n.negative then [45] else []) := by
    split
    · exact .cons (by decide) .nil
    · exact .nil
  have hfraction : NoDel (Number.fraction_text n.fraction) := by
    cases h : n.fraction with
    | none => exact .nil
    | some t => exact .cons (by decide) (hn.fraction t h).noDel
  have hexponent : NoDel (Number.exponent_text n.exponent) := by
    cases h : n.exponent with
    | none => exact .nil
    | some t =>
      obtain ⟨e, sign, ds⟩ := t
      obtain ⟨he, hs, hds⟩ := hn.exponent e sign ds h
      refine .append (.cons ?_ ?_) hds.noDel
      · rcases he with rfl | rfl
        · decide
        · decide
      · rcases hs with rfl | rfl | rfl
        · exact .nil
        · exact .cons (by decide) .nil
        · exact .cons (by decide) .nil
  exact ((hsign.append hn.integer.1.noDel).append hfraction).append hexponent

mutual
theorem Value.noDel {d : Nat} {t : List UInt8} {v : Variant R} (h : Value d t v) : NoDel t := by
  cases h with
  | null => exact NoDel.of_all (by decide)
  | true => exact NoDel.of_all (by decide)
  | false => exact NoDel.of_all (by decide)
  | string hs => exact hs.noDel
  | number hn => exact Number.noDel hn
  | array_empty hw => exact .append (.cons (by decide) hw.noDel) (.cons (by decide) .nil)
  | array h => exact .append (.cons (by decide) h.noDel) (.cons (by decide) .nil)
  | object_empty hw => exact .append (.cons (by decide) hw.noDel) (.cons (by decide) .nil)
  | object h => exact .append (.cons (by decide) h.noDel) (.cons (by decide) .nil)

theorem Elements.noDel {d : Nat} {t : List UInt8} {l : List (Variant R)} (h : Elements d t l) :
    NoDel t := by
  cases h with
  | one hw hv hw' => exact hw.noDel.append (hv.noDel.append hw'.noDel)
  | cons hw hv hw' h =>
    exact hw.noDel.append (hv.noDel.append (hw'.noDel.append (.cons (by decide) h.noDel)))

theorem Members.noDel {d : Nat} {t : List UInt8} {l : List (List UInt8 × Variant R)}
    (h : Members d t l) : NoDel t := by
  cases h with
  | one hw1 hk hw2 hw3 hv hw4 =>
    exact hw1.noDel.append (hk.noDel.append (hw2.noDel.append (.cons (by decide)
      (hw3.noDel.append (hv.noDel.append hw4.noDel)))))
  | cons hw1 hk hw2 hw3 hv hw4 h =>
    exact hw1.noDel.append (hk.noDel.append (hw2.noDel.append (.cons (by decide)
      (hw3.noDel.append (hv.noDel.append (hw4.noDel.append (.cons (by decide) h.noDel)))))))
end

end grammar

/-! ## Section 4: What the formatter leaves as it is -/

section format
variable [DoubleFormat R] (pretty : Bool)

variable {pre2 : List UInt8}

theorem mem_format_elements {l : List (Variant R)} {e : Variant R} (he : e ∈ l) {c : UInt8}
    (hc : c ∈ json_format pretty pre2 e) (first : Bool) :
    c ∈ json_format_elements pretty pre2 first l := by
  induction l generalizing first with
  | nil => cases he
  | cons e' l ih =>
    rw [json_format_elements]
    rcases mem_cons.mp he with rfl | he
    · simp [hc]
    · exact mem_append_right _ (ih he false)

theorem mem_format_pairs {l : List (List UInt8 × Variant R)} {m : List UInt8 × Variant R}
    (hm : m ∈ l) {c : UInt8} (hc : c ∈ json_format_string m.1 ∨ c ∈ json_format pretty pre2 m.2)
    (first : Bool) : c ∈ json_format_pairs pretty pre2 first l := by
  induction l generalizing first with
  | nil => cases hm
  | cons m' l ih =>
    rw [json_format_pairs]
    rcases mem_cons.mp hm with rfl | hm
    · rcases hc with hc | hc
      · simp [hc]
      · simp [hc]
    · exact mem_append_right _ (ih hm false)

variable {s : List UInt8}

theorem mem_format_string (h : (127 : UInt8) ∈ s) : (127 : UInt8) ∈ json_format_string s := by
  have hmem : (127 : UInt8) ∈ s.flatMap json_format_char :=
    mem_flatMap.mpr ⟨127, h, by decide⟩
  simp [json_format_string, hmem]

omit [DoubleFormat R] in
theorem exists_of_strings_elements {l : List (Variant R)} (h : s ∈ strings_elements l) :
    ∃ e ∈ l, s ∈ e.strings := by
  induction l with
  | nil => cases h
  | cons v l ih =>
    rcases mem_append.mp h with h | h
    · exact ⟨v, by simp, h⟩
    · obtain ⟨e, he, hs⟩ := ih h
      exact ⟨e, by simp [he], hs⟩

omit [DoubleFormat R] in
theorem exists_of_strings_pairs {l : List (List UInt8 × Variant R)}
    (h : s ∈ strings_pairs l) : ∃ m ∈ l, s = m.1 ∨ s ∈ m.2.strings := by
  induction l with
  | nil => cases h
  | cons m l ih =>
    obtain ⟨k, v⟩ := m
    rcases mem_cons.mp h with rfl | h
    · exact ⟨(s, v), by simp, .inl rfl⟩
    · rcases mem_append.mp h with h | h
      · exact ⟨(k, v), by simp, .inr h⟩
      · obtain ⟨m, hm, hs⟩ := ih h
        exact ⟨m, by simp [hm], hs⟩

/-- The character 0x7f of a string is in the text. -/
theorem del_mem_format {v : Variant R} (hs : s ∈ v.strings) (h : (127 : UInt8) ∈ s)
    (pre : List UInt8) : (127 : UInt8) ∈ json_format pretty pre v := by
  induction v using ind generalizing pre with
  | string s' =>
    obtain rfl : s = s' := by simpa [strings] using hs
    exact mem_format_string h
  | array l ih =>
    obtain ⟨e, he, hs'⟩ := exists_of_strings_elements hs
    cases l with
    | nil => cases he
    | cons e' l =>
      have hmem := mem_format_elements pretty he (ih e he hs' (if pretty then pre ++ [9] else pre)) true
      rw [json_format]
      simp [hmem]
  | object l ih =>
    obtain ⟨m, hm, hs'⟩ := exists_of_strings_pairs hs
    cases l with
    | nil => cases hm
    | cons m' l =>
      have hdel : (127 : UInt8) ∈ json_format_string m.1 ∨
          (127 : UInt8) ∈ json_format pretty (if pretty then pre ++ [9] else pre) m.2 := by
        rcases hs' with rfl | hs'
        · exact .inl (mem_format_string h)
        · exact .inr (ih m hm hs' _)
      have hmem := mem_format_pairs pretty hm hdel true
      rw [json_format]
      simp [hmem]
  | _ => cases hs

end format

/-! ## Section 5: The round trip -/

section roundtrip
variable [Double R] [DoubleFormat R]

/-- The parser reads the whole text of the variant, and what it reads is equal
    to the variant, integers compared as numbers. -/
def RoundTrips (v : Variant R) (pretty : Bool) : Prop :=
  (0 : UInt8) ∉ json_format pretty [] v ∧
    ∃ w : Variant R, sd_json_parse (json_format pretty [] v) ⟨false, false⟩ = .ok w ∧
      w.plain = v.plain

theorem cstring_of_noNul {t : List UInt8} (h : (0 : UInt8) ∉ t) : cstring t = t := by
  rw [cstring, takeWhile_eq_self_iff]
  intro c hc
  simpa using fun h0 : c = 0 => h (h0 ▸ hc)

theorem allowed_any (v : Variant R) : Allowed ⟨false, false⟩ v := by
  cases v with
  | array l => exact .inr rfl
  | object l => exact .inr rfl
  | _ => exact ⟨rfl, rfl⟩

/-- A variant comes back from its text just when none of its strings has the
    character 0x7f, and its brackets are not nested too deep. -/
theorem round_trip {v : Variant R} (h : Built v) (pretty : Bool) :
    RoundTrips v pretty ↔
      (∀ s ∈ v.strings, (127 : UInt8) ∉ s) ∧ v.brackets ≤ DEPTH_MAX := by
  constructor
  · rintro ⟨hnul, w, hparse, hplain⟩
    rw [sd_json_parse_eq_ok, cstring_of_noNul hnul] at hparse
    obtain ⟨⟨w1, t, w2, ht, hw1, hval, hw2⟩, -⟩ := hparse
    have hdel : NoDel (json_format pretty [] v) := by
      rw [ht]
      exact hw1.noDel.append (hval.noDel.append hw2.noDel)
    refine ⟨fun s hs hmem => ?_, ?_⟩
    · exact (hdel 127 (del_mem_format pretty hs hmem [])).2 rfl
    · rw [← v.brackets_plain, ← hplain, w.brackets_plain]
      exact hval.brackets_le
  · rintro ⟨hdel, hbrackets⟩
    have hval := h.proper.text pretty Ws.nil hdel hbrackets
    have hnul : (0 : UInt8) ∉ json_format pretty [] v := fun h0 => (hval.noDel 0 h0).1 rfl
    refine ⟨hnul, v.reparsed, ?_, v.plain_reparsed⟩
    rw [sd_json_parse_eq_ok, cstring_of_noNul hnul]
    exact ⟨⟨[], _, [], by simp, Ws.nil, hval, Ws.nil⟩, allowed_any _⟩

end roundtrip

/-- An array with a number and a string comes back. -/
theorem round_trip_array :
    RoundTrips (R := Float) (.array [.integer (-5), .string (ascii "a\n")]) true := by
  have hl : ∀ e ∈ [integer (-5), string (ascii "a\n")], Built (R := Float) e := by
    simp only [mem_cons, not_mem_nil, or_false, forall_eq_or_imp, forall_eq]
    exact ⟨.integer (by decide) (by decide), .string (s := ascii "a\n") (by decide) rfl⟩
  exact (round_trip (Built.array hl rfl) true).mpr ⟨by decide, by decide⟩

/-- The character 0x7f is written as it is and not read again. -/
theorem delete_fails :
    Built (R := Float) (.string [127]) ∧
      sd_json_parse (R := Float) (json_format (R := Float) false [] (.string [127])) ⟨false, false⟩ =
        .err Errno.EINVAL :=
  ⟨.string (s := [127]) (by decide) rfl, rfl⟩

end SdCompat.Json
