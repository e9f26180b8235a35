import SdCompat.SdBus.Signature

/-! # The grammar of signatures

    What the D-Bus specification calls a single complete type, with its limits
    on nesting, in terms of the type itself. The functions of bus-signature.c
    recognise the grammar in which a dictionary entry counts as a struct.
-/

namespace SdCompat.Bus

namespace Ty

/-! ## Section 1: The grammar -/

mutual

/-- No struct is empty, and dictionary entries stand directly inside arrays, or
    where they are allowed. A key is basic, and there is one value. -/
def WellFormed (allow_dict_entry : Bool) : Ty → Prop
  | basic _ => True
  | variant => True
  | array elem => elem.WellFormed true
  | struct members => members ≠ [] ∧ AllWellFormed members
  | dict_entry _ value => allow_dict_entry = true ∧ value.WellFormed false

def AllWellFormed : List Ty → Prop
  | [] => True
  | t :: ts => t.WellFormed false ∧ AllWellFormed ts

end

mutual

/-- How many arrays are within one another. -/
def arrays : Ty → Nat
  | basic _ => 0
  | variant => 0
  | array elem => elem.arrays + 1
  | struct members => most_arrays members
  | dict_entry _ value => value.arrays

def most_arrays : List Ty → Nat
  | [] => 0
  | t :: ts => max t.arrays (most_arrays ts)

end

mutual

/-- How many structs are within one another, a dictionary entry counting as
    `entry` structs. -/
def structs (entry : Nat) : Ty → Nat
  | basic _ => 0
  | variant => 0
  | array elem => elem.structs entry
  | struct members => most_structs entry members + 1
  | dict_entry _ value => value.structs entry + entry

def most_structs (entry : Nat) : List Ty → Nat
  | [] => 0
  | t :: ts => max (t.structs entry) (most_structs entry ts)

end

/-- A single complete type within the limits on nesting. -/
def Complete (entry : Nat) (allow_dict_entry : Bool) (t : Ty) : Prop :=
  t.WellFormed allow_dict_entry ∧ t.arrays ≤ 32 ∧ t.structs entry ≤ 32

/-- The signatures of the grammar. -/
def Signature (entry : Nat) (allow_dict_entry : Bool) (s : List UInt8) : Prop :=
  ∃ ts : List Ty, (∀ t ∈ ts, t.Complete entry allow_dict_entry) ∧ sigs ts = s ∧ s.length ≤ 255

/-! ## Section 2: The depth counters -/

mutual

/-- The counters stay below their limits exactly where the type is not nested
    too deeply. -/
theorem ok_iff (t : Ty) {allow : Bool} {ad sd : Nat} (had : ad ≤ 32) (hsd : sd ≤ 32) :
    t.Ok allow ad sd ↔ t.WellFormed allow ∧ ad + t.arrays ≤ 32 ∧ sd + t.structs 1 ≤ 32 := by
  match t with
  | .basic _ => simp [Ok, WellFormed, arrays, structs, had, hsd]
  | .variant => simp [Ok, WellFormed, arrays, structs, had, hsd]
  | .array elem =>
    rw [Ok, WellFormed, arrays, structs]
    constructor
    · rintro ⟨hlt, h⟩
      obtain ⟨hw, ha, hs⟩ := (elem.ok_iff (by omega) hsd).mp h
      exact ⟨hw, by omega, hs⟩
    · rintro ⟨hw, ha, hs⟩
      exact ⟨by omega, (elem.ok_iff (by omega) hsd).mpr ⟨hw, by omega, hs⟩⟩
  | .struct members =>
    rw [Ok, WellFormed, arrays, structs]
    constructor
    · rintro ⟨hlt, hne, h⟩
      obtain ⟨hw, ha, hs⟩ := (allOk_iff members had (by omega)).mp h
      exact ⟨⟨hne, hw⟩, ha, by omega⟩
    · rintro ⟨⟨hne, hw⟩, ha, hs⟩
      exact ⟨by omega, hne, (allOk_iff members had (by omega)).mpr ⟨hw, ha, by omega⟩⟩
  | .dict_entry key value =>
    rw [Ok, WellFormed, arrays, structs]
    constructor
    · rintro ⟨hallow, hlt, h⟩
      obtain ⟨hw, ha, hs⟩ := (value.ok_iff had (by omega)).mp h
      exact ⟨⟨hallow, hw⟩, ha, by omega⟩
    · rintro ⟨⟨hallow, hw⟩, ha, hs⟩
      exact ⟨hallow, by omega, (value.ok_iff had (by omega)).mpr ⟨hw, ha, by omega⟩⟩

/-- The members of a struct. -/
theorem allOk_iff (ts : List Ty) {ad sd : Nat} (had : ad ≤ 32) (hsd : sd ≤ 32) :
    AllOk ad sd ts ↔ AllWellFormed ts ∧ ad + most_arrays ts ≤ 32 ∧ sd + most_structs 1 ts ≤ 32 := by
  match ts with
  | [] => simp [AllOk, AllWellFormed, most_arrays, most_structs, had, hsd]
  | t :: ts =>
    rw [AllOk, AllWellFormed, most_arrays, most_structs, t.ok_iff had hsd, allOk_iff ts had hsd]
    constructor
    · rintro ⟨⟨hw, ha, hs⟩, hws, has, hss⟩
      exact ⟨⟨hw, hws⟩, by omega, by omega⟩
    · rintro ⟨⟨hw, hws⟩, ha, hs⟩
      exact ⟨⟨hw, by omega, by omega⟩, hws, by omega, by omega⟩

end

/-- What the functions accept at top level. -/
theorem ok_iff_complete {t : Ty} {allow : Bool} : t.Ok allow 0 0 ↔ t.Complete 1 allow := by
  rw [t.ok_iff (Nat.zero_le _) (Nat.zero_le _), Nat.zero_add, Nat.zero_add, Complete]

/-! ## Section 3: The recogniser -/

/-- `signature_is_valid` accepts what is a signature. -/
theorem signature_is_valid_iff (s : List UInt8) (allow : Bool) :
    signature_is_valid s allow = true ↔ Signature 1 allow s := by
  constructor
  · intro h
    obtain ⟨ts, hts, hs⟩ := types_of_valid h
    refine ⟨ts, fun t ht => ok_iff_complete.mp (hts t ht), hs, ?_⟩
    exact of_decide_eq_true (Bool.and_eq_true _ _ ▸ h).2
  · rintro ⟨ts, hts, rfl, hlen⟩
    exact signature_is_valid_sigs (fun t ht => ok_iff_complete.mpr (hts t ht)) hlen

/-- `signature_element_length` finds the one type the string starts with. -/
theorem signature_element_length_types {s : List UInt8} {n : Nat}
    (h : signature_element_length s = some n) :
    ∃ t : Ty, t.Complete 1 true ∧ t.sig <+: s ∧ n = t.sig.length ∧
      ∀ t' : Ty, t'.sig <+: s → t' = t := by
  obtain ⟨t, r, hok, rfl, rfl⟩ := (signature_element_length_internal_types _).1 _ _ _ _ _ h
  refine ⟨t, ok_iff_complete.mp hok, List.prefix_append _ _, rfl, ?_⟩
  rintro t' ⟨r', hr'⟩
  exact (sig_unique t' t hr').1

/-- **The grammar of signatures**: what `signature_is_valid` accepts, and what
    `signature_element_length` finds. -/
theorem signature_grammar (s : List UInt8) :
    (∀ allow, signature_is_valid s allow = true ↔ Signature 1 allow s) ∧
      ∀ n, signature_element_length s = some n →
        ∃ t : Ty, t.Complete 1 true ∧ t.sig <+: s ∧ n = t.sig.length ∧
          ∀ t' : Ty, t'.sig <+: s → t' = t :=
  ⟨signature_is_valid_iff s, fun _ h => signature_element_length_types h⟩

/-! ### A dictionary entry below 32 structs -/

/-- A type inside some structs. -/
def inside : Nat → Ty → Ty
  | 0, t => t
  | n + 1, t => struct [inside n t]

theorem inside_wellFormed {t : Ty} (h : t.WellFormed false) (n : Nat) :
    (inside n t).WellFormed false := by
  induction n with
  | zero => exact h
  | succ n ih => simp [inside, WellFormed, AllWellFormed, ih]

theorem inside_arrays (t : Ty) (n : Nat) : (inside n t).arrays = t.arrays := by
  induction n with
  | zero => rfl
  | succ n ih => simp [inside, arrays, most_arrays, ih]

theorem inside_structs (entry : Nat) (t : Ty) (n : Nat) :
    (inside n t).structs entry = t.structs entry + n := by
  induction n with
  | zero => rfl
  | succ n ih =>
    rw [inside, structs, most_structs, most_structs]
    omega

/-- `a{yy}` inside 32 structs is a type, if dictionary entries do not count as
    structs, but not accepted. -/
theorem dict_entry_not_counted :
    ¬ ∀ (s : List UInt8) (allow : Bool), signature_is_valid s allow = true ↔ Signature 0 allow s := by
  intro h
  let entry := Ty.array (.dict_entry (.fixed .byte) (.basic (.fixed .byte)))
  let t := inside 32 entry
  have hvalid : signature_is_valid (sigs [t]) false = true := by
    refine (h (sigs [t]) false).mpr ⟨[t], ?_, rfl, by decide⟩
    intro t' ht'
    rw [List.mem_singleton.mp ht']
    refine ⟨inside_wellFormed ?_ 32, ?_, ?_⟩
    · simp [entry, WellFormed]
    · rw [inside_arrays]
      decide
    · rw [inside_structs]
      decide
  obtain ⟨ts, hts, hs, -⟩ := (signature_is_valid_iff _ _).mp hvalid
  rw [sigs_injective hs] at hts
  have hdeep := (hts t List.mem_cons_self).2.2
  rw [inside_structs] at hdeep
  exact absurd hdeep (by decide)

end Ty

end SdCompat.Bus
