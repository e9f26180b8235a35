import SdCompat.SdJson.Lexemes

/-! # The grammar of JSON

    What a JSON text is, and the value it denotes: `Value d t v` says that `t`
    is the text of the value `v` with at most `d` arrays and objects nested in
    each other, and `JsonText` adds the whitespace around it. The parser is
    compared with it in the module after this one.
-/

namespace SdCompat.Json

open Number Variant

variable {R : Type} [Double R]

/-! ## Section 1: The grammar -/

/-- Whitespace, as much as there is. -/
def Ws (w : List UInt8) : Prop := ∀ c ∈ w, is_whitespace c = true

theorem Ws.nil : Ws [] := by simp [Ws]

theorem Ws.append {w w' : List UInt8} (h : Ws w) (h' : Ws w') : Ws (w ++ w') := by
  intro c hc
  rcases List.mem_append.mp hc with hc | hc
  · exact h c hc
  · exact h' c hc

/-- The value of the token of a number. -/
def Token.number : Token R → Variant R
  | .real x => sd_json_variant_new_real x
  | .integer i => .integer i
  | .unsigned u => .unsigned u
  | _ => .null

mutual
/-- A value, without whitespace around it. -/
inductive Value : Nat → List UInt8 → Variant R → Prop where
  | null {d : Nat} : Value d (ascii "null") .null
  | true {d : Nat} : Value d (ascii "true") (.boolean Bool.true)
  | false {d : Nat} : Value d (ascii "false") (.boolean Bool.false)
  | string {d : Nat} {t s : List UInt8} (hs : StringText t s) : Value d t (.string s)
  | number {d : Nat} {n : Number} (hn : n.WellFormed) : Value d n.text n.token.number
  | array_empty {d : Nat} {w : List UInt8} (hw : Ws w) : Value (d + 1) (91 :: w ++ [93]) (.array [])
  | array {d : Nat} {t : List UInt8} {l : List (Variant R)} (h : Elements d t l) :
      Value (d + 1) (91 :: t ++ [93]) (.array l)
  | object_empty {d : Nat} {w : List UInt8} (hw : Ws w) :
      Value (d + 1) (123 :: w ++ [125]) (.object [])
  | object {d : Nat} {t : List UInt8} {l : List (List UInt8 × Variant R)} (h : Members d t l) :
      Value (d + 1) (123 :: t ++ [125]) (.object l)

/-- The elements of an array that has some. -/
inductive Elements : Nat → List UInt8 → List (Variant R) → Prop where
  | one {d : Nat} {w t w' : List UInt8} {v : Variant R} (hw : Ws w) (hv : Value d t v)
      (hw' : Ws w') : Elements d (w ++ (t ++ w')) [v]
  | cons {d : Nat} {w t w' t' : List UInt8} {v : Variant R} {l : List (Variant R)} (hw : Ws w)
      (hv : Value d t v) (hw' : Ws w') (h : Elements d t' l) :
      Elements d (w ++ (t ++ (w' ++ 44 :: t'))) (v :: l)

/-- The members of an object that has some. -/
inductive Members : Nat → List UInt8 → List (List UInt8 × Variant R) → Prop where
  | one {d : Nat} {w₁ k w₂ w₃ t w₄ key : List UInt8} {v : Variant R} (hw₁ : Ws w₁)
      (hk : StringText k key) (hw₂ : Ws w₂) (hw₃ : Ws w₃) (hv : Value d t v) (hw₄ : Ws w₄) :
      Members d (w₁ ++ (k ++ (w₂ ++ 58 :: (w₃ ++ (t ++ w₄))))) [(key, v)]
  | cons {d : Nat} {w₁ k w₂ w₃ t w₄ t' key : List UInt8} {v : Variant R}
      {l : List (List UInt8 × Variant R)} (hw₁ : Ws w₁) (hk : StringText k key) (hw₂ : Ws w₂)
      (hw₃ : Ws w₃) (hv : Value d t v) (hw₄ : Ws w₄) (h : Members d t' l) :
      Members d (w₁ ++ (k ++ (w₂ ++ 58 :: (w₃ ++ (t ++ (w₄ ++ 44 :: t')))))) ((key, v) :: l)
end

/-- A value with whitespace around it. -/
def JsonText (d : Nat) (t : List UInt8) (v : Variant R) : Prop :=
  ∃ w t' w', t = w ++ (t' ++ w') ∧ Ws w ∧ Value d t' v ∧ Ws w'

/-- An integer without a sign that fits is exact. -/
theorem Value.unsigned {d : Nat} {n : Number} (hn : n.WellFormed) (hfraction : n.fraction = none)
    (hexponent : n.exponent = none) (hneg : n.negative = Bool.false)
    (hfits : digits_value n.integer < 2 ^ 64) :
    Value (R := R) d n.text (.unsigned (digits_value n.integer)) := by
  have htok : (n.token : Token R) = .unsigned (digits_value n.integer) := by
    unfold token
    rw [hfraction, hexponent, hneg, if_pos (by decide), if_neg (by decide), if_pos hfits]
  have hval := Value.number (R := R) (d := d) hn
  rwa [htok] at hval

/-- An integer with a sign that fits is exact. -/
theorem Value.integer {d : Nat} {n : Number} (hn : n.WellFormed) (hfraction : n.fraction = none)
    (hexponent : n.exponent = none) (hneg : n.negative = Bool.true)
    (hfits : digits_value n.integer ≤ 2 ^ 63) :
    Value (R := R) d n.text (.integer (-(digits_value n.integer : Int))) := by
  have htok : (n.token : Token R) = .integer (-(digits_value n.integer : Int)) := by
    unfold token
    rw [hfraction, hexponent, hneg, if_pos (by decide), if_pos (by decide), if_pos hfits]
  have hval := Value.number (R := R) (d := d) hn
  rwa [htok] at hval

/-! ## Section 2: Depth -/

/-- A number has no members. -/
theorem Token.number_depth (tok : Token R) : tok.number.depth = 0 := by
  cases tok with
  | real x =>
    show (sd_json_variant_new_real x).depth = 0
    unfold sd_json_variant_new_real
    cases Double.fpclassify x
    all_goals rfl
  | _ => rfl

mutual
/-- A value is no deeper than its brackets are nested. -/
theorem Value.depth_le {d : Nat} {t : List UInt8} {v : Variant R} (h : Value d t v) :
    v.depth ≤ d := by
  cases h with
  | null => exact Nat.zero_le _
  | true => exact Nat.zero_le _
  | false => exact Nat.zero_le _
  | string => exact Nat.zero_le _
  | number =>
    rw [Token.number_depth]
    exact Nat.zero_le _
  | array_empty => exact Nat.zero_le _
  | array h => exact h.depth_le
  | object_empty => exact Nat.zero_le _
  | object h => exact h.depth_le

theorem Elements.depth_le {d : Nat} {t : List UInt8} {l : List (Variant R)} (h : Elements d t l) :
    depth_elements l ≤ d + 1 := by
  cases h with
  | one hw hv hw' =>
    have := hv.depth_le
    simp only [depth_elements]
    omega
  | cons hw hv hw' h =>
    have := hv.depth_le
    have := h.depth_le
    simp only [depth_elements]
    omega

theorem Members.depth_le {d : Nat} {t : List UInt8} {l : List (List UInt8 × Variant R)}
    (h : Members d t l) : depth_pairs l ≤ d + 1 := by
  cases h with
  | one hw1 hk hw2 hw3 hv hw4 =>
    have := hv.depth_le
    simp only [depth_pairs]
    omega
  | cons hw1 hk hw2 hw3 hv hw4 h =>
    have := hv.depth_le
    have := h.depth_le
    simp only [depth_pairs]
    omega
end

end SdCompat.Json
