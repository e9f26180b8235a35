import Mathlib.Data.List.TakeWhile
import SdCompat.SdBus.MatchParse

/-! # The text of a match rule

    The grammar of match rules, as a relation between the components of a rule
    and the texts that it may have, and how the parser follows it.

    * `bus_match_node_type_iff`: the keys that there are;
    * `RuleText`: the texts of a rule;
    * `parse_loop_reads`, `parse_loop_finds`: what is parsed is a rule, and
      every rule is parsed.
-/

namespace SdCompat.Match

open Call List BusMatchNodeType Option Bool

/-! ## Section 1: Keys -/

/-- The digits of the index of an argument. -/
def decimal (i : Nat) : List UInt8 :=
  if i < 10 then [0x30 + i.toUInt8] else [0x30 + (i / 10).toUInt8, 0x30 + (i % 10).toUInt8]

/-- The key of a type. -/
def BusMatchNodeType.key : BusMatchNodeType → List UInt8
  | .sender => ascii "sender"
  | .message_type => ascii "type"
  | .destination => ascii "destination"
  | .interface => ascii "interface"
  | .member => ascii "member"
  | .path => ascii "path"
  | .path_namespace => ascii "path_namespace"
  | .arg i => ascii "arg" ++ decimal i
  | .arg_path i => ascii "arg" ++ decimal i ++ ascii "path"
  | .arg_namespace i => ascii "arg" ++ decimal i ++ ascii "namespace"
  | .arg_has i => ascii "arg" ++ decimal i ++ ascii "has"

section key
variable {k key rest w w' : List UInt8} {n : Nat} {t : BusMatchNodeType} {i : Fin 64}

variable {token : String}

theorem starts_iff : starts k token = true ↔ ascii token <+: k := by
  unfold starts memory_startswith
  rw [← List.isPrefixOf_iff_prefix]
  split
  · next h => simp [h]
  · next h => simp [h]

/-- The key of a type is found. -/
theorem bus_match_node_type_key (t : BusMatchNodeType) :
    bus_match_node_type_from_string t.key t.key.length = some t := by
  have hone : ∀ i : Fin 64,
      bus_match_node_type_from_string (arg i).key
        (arg i).key.length = some (.arg i) ∧
      bus_match_node_type_from_string (arg_path i).key
        (arg_path i).key.length = some (.arg_path i) ∧
      bus_match_node_type_from_string (arg_namespace i).key
        (arg_namespace i).key.length = some (.arg_namespace i) ∧
      bus_match_node_type_from_string (arg_has i).key
        (arg_has i).key.length = some (.arg_has i) := by
    decide +kernel
  cases t with
  | arg i => exact (hone i).1
  | arg_path i => exact (hone i).2.1
  | arg_namespace i => exact (hone i).2.2.1
  | arg_has i => exact (hone i).2.2.2
  | _ => decide

/-- What is behind the key makes no difference. -/
theorem starts_append (h : (ascii token).length ≤ key.length) :
    starts (key ++ rest) token = starts key token := by
  rw [Bool.eq_iff_iff, starts_iff, starts_iff]
  constructor
  · intro hp
    exact prefix_of_prefix_length_le hp (prefix_append _ _) h
  · intro hp
    exact hp.trans (prefix_append _ _)

theorem undecchar_some {c : UInt8} {j : Nat} (h : undecchar c = some j) :
    j < 10 ∧ c = 0x30 + j.toUInt8 := by
  have hall := forall_byte
    (P := fun c => (undecchar c).all (fun j => j < 10 && c = 0x30 + j.toUInt8) = true)
    (by decide +kernel) c
  rw [h] at hall
  simpa using hall

/-- An index that is read from one digit. -/
theorem arg_digit_some (h : arg_digit k = some i) : [k.getD 3 0] = decimal i := by
  obtain ⟨j, hj, h⟩ := bind_eq_some_iff.mp h
  obtain ⟨hlt, hc⟩ := undecchar_some hj
  split at h
  · cases h
    unfold decimal
    rw [if_pos hlt, hc]
  · cases h

/-- And from two. -/
theorem arg_digits_some (h : arg_digits k = some i) : [k.getD 3 0, k.getD 4 0] = decimal i := by
  obtain ⟨a, ha, h⟩ := bind_eq_some_iff.mp h
  obtain ⟨b, hb, h⟩ := bind_eq_some_iff.mp h
  obtain ⟨halt, hca⟩ := undecchar_some ha
  obtain ⟨hblt, hcb⟩ := undecchar_some hb
  split at h
  · next hpos =>
    cases h
    have hten : ¬ a * 10 + b < 10 := by omega
    have hdiv : (a * 10 + b) / 10 = a := by omega
    have hmod : (a * 10 + b) % 10 = b := by omega
    unfold decimal
    rw [if_neg hten, hdiv, hmod, hca, hcb]
  · cases h

theorem eq_of_starts (h : starts key token = true) (hlen : key.length = (ascii token).length) :
    key = ascii token :=
  ((starts_iff.mp h).eq_of_length hlen.symm).symm

/-- A key between whose two parts are the digits of an index. -/
theorem eq_of_starts_both {token' : String} (d : Nat) (h : starts key token = true)
    (h' : starts (key.drop ((ascii token).length + d)) token' = true)
    (hlen : key.length = (ascii token).length + d + (ascii token').length) :
    key = ascii token ++ (key.drop (ascii token).length).take d ++ ascii token' := by
  obtain ⟨a, rfl⟩ := starts_iff.mp h
  rw [drop_left]
  rw [drop_append, drop_eq_nil_of_le (Nat.le_add_right _ _), nil_append,
    Nat.add_sub_cancel_left] at h'
  rw [length_append, Nat.add_assoc] at hlen
  have hback : a.drop d = ascii token' := by
    apply eq_of_starts h'
    rw [length_drop]
    omega
  rw [append_assoc, ← hback, take_append_drop]

theorem take_one (h : 4 ≤ key.length) : (key.drop 3).take 1 = [key.getD 3 0] := by
  match key, h with
  | _ :: _ :: _ :: d :: _, _ => rfl

theorem take_two (h : 5 ≤ key.length) : (key.drop 3).take 2 = [key.getD 3 0, key.getD 4 0] := by
  match key, h with
  | _ :: _ :: _ :: d :: e :: _, _ => rfl

/-- The name of a type. -/
theorem eq_key_of_name (token : String) (t' : BusMatchNodeType) (hkey : t'.key = ascii token)
    (hn : n = (ascii token).length) (h : (decide (key.length = n) && starts key token) = true)
    (ht : some t' = some t) : key = t.key := by
  rw [and_eq_true, decide_eq_true_eq] at h
  cases ht
  rw [hkey]
  exact eq_of_starts h.2 (h.1.trans hn)

/-- An argument with an index in one digit. -/
theorem eq_key_of_digit (token : String) (f : Fin 64 → BusMatchNodeType)
    (hkey : ∀ i, (f i).key = ascii "arg" ++ decimal i ++ ascii token)
    (hn : n = 4 + (ascii token).length)
    (h : (decide (key.length = n) && starts key "arg" && starts (key.drop 4) token) = true)
    (ht : (arg_digit key).map f = some t) : key = t.key := by
  rw [and_eq_true, and_eq_true, decide_eq_true_eq] at h
  obtain ⟨⟨hlen, harg⟩, htoken⟩ := h
  rw [hn] at hlen
  obtain ⟨i, hi, rfl⟩ := map_eq_some_iff.mp ht
  have heq := eq_of_starts_both 1 harg htoken hlen
  have htake : (key.drop 3).take 1 = decimal i := by
    rw [take_one (by omega), arg_digit_some hi]
  rw [hkey, ← htake]
  exact heq

/-- And in two. -/
theorem eq_key_of_digits (token : String) (f : Fin 64 → BusMatchNodeType)
    (hkey : ∀ i, (f i).key = ascii "arg" ++ decimal i ++ ascii token)
    (hn : n = 5 + (ascii token).length)
    (h : (decide (key.length = n) && starts key "arg" && starts (key.drop 5) token) = true)
    (ht : (arg_digits key).map f = some t) : key = t.key := by
  rw [and_eq_true, and_eq_true, decide_eq_true_eq] at h
  obtain ⟨⟨hlen, harg⟩, htoken⟩ := h
  rw [hn] at hlen
  obtain ⟨i, hi, rfl⟩ := map_eq_some_iff.mp ht
  have heq := eq_of_starts_both 2 harg htoken hlen
  have htake : (key.drop 3).take 2 = decimal i := by
    rw [take_two (by omega), arg_digits_some hi]
  rw [hkey, ← htake]
  exact heq

/-- There are no other keys. -/
theorem bus_match_node_type_some
    (h : bus_match_node_type_from_string key key.length = some t) : key = t.key := by
  have harg : ∀ i, (arg i).key = ascii "arg" ++ decimal i ++ ascii "" :=
    fun _ => (append_nil _).symm
  -- an index at the end has nothing behind it
  have hempty : ∀ {b : Bool} (d : Nat), b = true → (b && starts (key.drop d) "") = true := by
    intro b d hb
    have hnil : ascii "" <+: key.drop d := nil_prefix
    rw [hb]
    rfl
  have hbranch : ∀ {b : Bool} {x y : Option BusMatchNodeType},
      (if b then x else y) = some t → b = true ∧ x = some t ∨ y = some t := by
    intro b x y h
    cases b with
    | true => exact .inl ⟨rfl, h⟩
    | false => exact .inr h
  rcases hbranch h with ⟨hc, h⟩ | h
  · exact eq_key_of_name "type" .message_type rfl rfl hc h
  rcases hbranch h with ⟨hc, h⟩ | h
  · exact eq_key_of_name "sender" .sender rfl rfl hc h
  rcases hbranch h with ⟨hc, h⟩ | h
  · exact eq_key_of_name "destination" .destination rfl rfl hc h
  rcases hbranch h with ⟨hc, h⟩ | h
  · exact eq_key_of_name "interface" .interface rfl rfl hc h
  rcases hbranch h with ⟨hc, h⟩ | h
  · exact eq_key_of_name "member" .member rfl rfl hc h
  rcases hbranch h with ⟨hc, h⟩ | h
  · exact eq_key_of_name "path" .path rfl rfl hc h
  rcases hbranch h with ⟨hc, h⟩ | h
  · exact eq_key_of_name "path_namespace" .path_namespace rfl rfl hc h
  rcases hbranch h with ⟨hc, h⟩ | h
  · exact eq_key_of_digit "" .arg harg rfl (hempty 4 hc) h
  rcases hbranch h with ⟨hc, h⟩ | h
  · exact eq_key_of_digits "" .arg harg rfl (hempty 5 hc) h
  rcases hbranch h with ⟨hc, h⟩ | h
  · exact eq_key_of_digit "path" .arg_path (fun _ => rfl) rfl hc h
  rcases hbranch h with ⟨hc, h⟩ | h
  · exact eq_key_of_digits "path" .arg_path (fun _ => rfl) rfl hc h
  rcases hbranch h with ⟨hc, h⟩ | h
  · exact eq_key_of_digit "namespace" .arg_namespace (fun _ => rfl) rfl hc h
  rcases hbranch h with ⟨hc, h⟩ | h
  · exact eq_key_of_digits "namespace" .arg_namespace (fun _ => rfl) rfl hc h
  rcases hbranch h with ⟨hc, h⟩ | h
  · exact eq_key_of_digit "has" .arg_has (fun _ => rfl) rfl hc h
  rcases hbranch h with ⟨hc, h⟩ | h
  · exact eq_key_of_digits "has" .arg_has (fun _ => rfl) rfl hc h
  cases h

theorem getD_append {j : Nat} (h : j < key.length) : (key ++ rest).getD j 0 = key.getD j 0 := by
  rw [getD_eq_getElem?_getD, getD_eq_getElem?_getD, getElem?_append_left h]

/-- Only the key is looked at. -/
theorem bus_match_node_type_append (key rest : List UInt8) :
    bus_match_node_type_from_string (key ++ rest) key.length =
      bus_match_node_type_from_string key key.length := by
  have hif : ∀ {b b' : Bool} {x x' y y' : Option BusMatchNodeType}, b = b' →
      (b' = true → x = x') → y = y' → (if b then x else y) = if b' then x' else y' := by
    intro b b' x x' y y' hb hx hy
    subst hb hy
    cases b with
    | true => exact hx rfl
    | false => rfl
  have hname : ∀ (n : Nat) (token : String), (ascii token).length = n →
      (decide (key.length = n) && starts (key ++ rest) token) =
        (decide (key.length = n) && starts key token) := by
    intro n token hn
    by_cases hlen : key.length = n
    · rw [starts_append (by omega)]
    · simp [hlen]
  have harg : ∀ (n : Nat), 3 ≤ n → (decide (key.length = n) && starts (key ++ rest) "arg") =
      (decide (key.length = n) && starts key "arg") := by
    intro n hn
    have hthree : (ascii "arg").length = 3 := rfl
    by_cases hlen : key.length = n
    · rw [starts_append (by omega)]
    · simp [hlen]
  have hmid : ∀ (n d : Nat) (token : String), 3 ≤ d → d + (ascii token).length = n →
      (decide (key.length = n) && starts (key ++ rest) "arg" &&
        starts ((key ++ rest).drop d) token) =
      (decide (key.length = n) && starts key "arg" && starts (key.drop d) token) := by
    intro n d token hd hn
    rw [harg n (by omega)]
    by_cases hlen : key.length = n
    · rw [drop_append_of_le_length (by omega),
        starts_append (by rw [length_drop]; omega)]
    · simp [hlen]
  have hlen : ∀ {n : Nat} {b : Bool}, (decide (key.length = n) && b) = true → key.length = n := by
    intro n b h
    rw [and_eq_true, decide_eq_true_eq] at h
    exact h.1
  have hdigit : ∀ {f : Fin 64 → BusMatchNodeType} {n : Nat}, key.length = n → 4 ≤ n →
      (arg_digit (key ++ rest)).map f = (arg_digit key).map f := by
    intro f n hn h
    unfold arg_digit
    rw [getD_append (by omega)]
  have hdigits : ∀ {f : Fin 64 → BusMatchNodeType} {n : Nat}, key.length = n → 5 ≤ n →
      (arg_digits (key ++ rest)).map f = (arg_digits key).map f := by
    intro f n hn h
    unfold arg_digits
    rw [getD_append (by omega), getD_append (by omega)]
  have hlen' : ∀ {n : Nat} {b c : Bool}, (decide (key.length = n) && b && c) = true →
      key.length = n := fun h => hlen (by rwa [Bool.and_assoc] at h)
  refine hif (hname 4 "type" rfl) (fun _ => rfl) ?_
  refine hif (hname 6 "sender" rfl) (fun _ => rfl) ?_
  refine hif (hname 11 "destination" rfl) (fun _ => rfl) ?_
  refine hif (hname 9 "interface" rfl) (fun _ => rfl) ?_
  refine hif (hname 6 "member" rfl) (fun _ => rfl) ?_
  refine hif (hname 4 "path" rfl) (fun _ => rfl) ?_
  refine hif (hname 14 "path_namespace" rfl) (fun _ => rfl) ?_
  refine hif (harg 4 (by decide)) (fun h => hdigit (hlen h) (by decide)) ?_
  refine hif (harg 5 (by decide)) (fun h => hdigits (hlen h) (by decide)) ?_
  refine hif (hmid 8 4 "path" (by decide) rfl) (fun h => hdigit (hlen' h) (by decide)) ?_
  refine hif (hmid 9 5 "path" (by decide) rfl) (fun h => hdigits (hlen' h) (by decide)) ?_
  refine hif (hmid 13 4 "namespace" (by decide) rfl) (fun h => hdigit (hlen' h) (by decide)) ?_
  refine hif (hmid 14 5 "namespace" (by decide) rfl) (fun h => hdigits (hlen' h) (by decide)) ?_
  refine hif (hmid 7 4 "has" (by decide) rfl) (fun h => hdigit (hlen' h) (by decide)) ?_
  refine hif (hmid 8 5 "has" (by decide) rfl) (fun h => hdigits (hlen' h) (by decide)) rfl

/-- The keys that there are. -/
theorem bus_match_node_type_iff :
    bus_match_node_type_from_string (key ++ rest) key.length = some t ↔ key = t.key := by
  rw [bus_match_node_type_append]
  constructor
  · exact bus_match_node_type_some
  · rintro rfl
    exact bus_match_node_type_key t

end key

/-! ## Section 2: Values -/

/-- How the bytes of a value are written: a backslash before any byte, or the
    byte itself where that is neither a backslash nor the end of the value. -/
inductive Written (quoted : Bool) : List UInt8 → List UInt8 → Prop
  | nil : Written quoted [] []
  | plain {c : UInt8} {v s : List UInt8} : c ≠ 0x5c → c ≠ value_end quoted →
      Written quoted v s → Written quoted (c :: v) (c :: s)
  | escaped {c : UInt8} {v s : List UInt8} :
      Written quoted v s → Written quoted (c :: v) (0x5c :: c :: s)

/-- What the loop over a value reads: the value as it is written, up to the end
    of a value, or to a backslash that ends the text. -/
inductive Reads : Bool → List UInt8 → List UInt8 → List UInt8 → Prop
  | quoted {v t rest : List UInt8} : Written true v t → Reads true v (t ++ 0x27 :: rest) rest
  | unquoted {v t rest : List UInt8} : Written false v t → rest = [] ∨ rest.head? = some 0x2c →
      Reads false v (t ++ rest) rest
  | backslash {v t : List UInt8} : Written false v t → Reads false v (t ++ [0x5c]) []

section value
variable {m₀ : Memory PUnit} {blocks : List Nat} {h : Heap} {quoted escaped : Bool}
  {value : Option Nat} {r v s rest : List UInt8} {c : UInt8}

theorem Reads.cons_plain (hc : c ≠ 0x5c) (hend : c ≠ value_end quoted) (hr : Reads quoted v s rest) :
    Reads quoted (c :: v) (c :: s) rest := by
  cases hr with
  | quoted hw => exact .quoted (.plain hc hend hw)
  | unquoted hw hrest => exact .unquoted (.plain hc hend hw) hrest
  | backslash hw => exact .backslash (.plain hc hend hw)

theorem Reads.cons_escaped (hr : Reads quoted v s rest) :
    Reads quoted (c :: v) (0x5c :: c :: s) rest := by
  cases hr with
  | quoted hw => exact .quoted (.escaped hw)
  | unquoted hw hrest => exact .unquoted (.escaped hw) hrest
  | backslash hw => exact .backslash (.escaped hw)

/-- There is memory for every allocation. -/
def Heap.Enough (h : Heap) : Prop := ∀ n, h.succeeds n = true

theorem malloc_owns (ho : m₀.Owns h.memory blocks) :
    Ensures malloc h (fun p h' => m₀.Owns h'.memory (p :: blocks))
      (fun h' => m₀.Owns h'.memory blocks) := by
  unfold malloc Ensures
  dsimp only
  by_cases hs : h.succeeds h.count = true
  · rw [if_pos hs]
    exact ho.alloc ⟨⟩
  · rw [if_neg hs]
    exact ho

theorem greedy_realloc_owns (ho : m₀.Owns h.memory (value.toList ++ blocks)) :
    Ensures (greedy_realloc value) h (fun p h' => m₀.Owns h'.memory (p :: blocks))
      (fun h' => m₀.Owns h'.memory (value.toList ++ blocks)) := by
  cases value with
  | none => exact malloc_owns ho
  | some p =>
    unfold greedy_realloc Ensures
    dsimp only
    by_cases hs : h.succeeds h.count = true
    · rw [if_pos hs]
      exact ho.touch mem_cons_self
    · rw [if_neg hs]
      exact ho

theorem free_owns {E : Heap → Prop} (ho : m₀.Owns h.memory (value.toList ++ blocks)) :
    Ensures (free value) h (fun _ h' => m₀.Owns h'.memory blocks) E := by
  cases value with
  | none => exact ho
  | some p => exact ho.free

/-- Where an error leaves the value it is freed. -/
theorem cleanup_value_owns {α : Type} {x : Call Heap α} {Q : α → Heap → Prop}
    (hx : Ensures x h Q fun h' => m₀.Owns h'.memory (value.toList ++ blocks)) :
    Ensures (cleanup x (free value)) h Q fun h' => m₀.Owns h'.memory blocks :=
  ensures_cleanup hx fun _ ho => free_owns ho

/-- The loop over a value reads it, and keeps no other block than that of the
    value. -/
theorem value_loop_reads (ho : m₀.Owns h.memory (value.toList ++ blocks)) :
    Ensures (value_loop quoted escaped value r s) h
      (fun x h' => m₀.Owns h'.memory (x.1.toList ++ blocks) ∧
        ∃ v, x.2.1 = r ++ v ∧ Reads quoted v (if escaped then 0x5c :: s else s) x.2.2)
      (fun h' => m₀.Owns h'.memory blocks) := by
  induction s generalizing escaped value r h with
  | nil =>
    cases quoted with
    | true => exact cleanup_value_owns (ensures_fail ho)
    | false =>
      refine ensures_pure ⟨ho, [], (append_nil r).symm, ?_⟩
      cases escaped with
      | true => exact .backslash .nil
      | false => exact .unquoted .nil (.inl rfl)
  | cons c s ih =>
    rw [value_loop]
    split
    · -- a backslash
      next hc =>
      obtain ⟨rfl, rfl⟩ : escaped = false ∧ c = 0x5c := by simpa using hc
      exact ih ho
    · next hc =>
      split
      · -- the end
        next hend =>
        obtain ⟨rfl, rfl⟩ : escaped = false ∧ c = value_end quoted := by simpa using hend
        refine ensures_pure ⟨ho, [], (append_nil r).symm, ?_⟩
        cases quoted with
        | true => exact .quoted .nil
        | false => exact .unquoted .nil (.inr rfl)
      · -- a byte of the value
        next hend =>
        apply ensures_bind (cleanup_value_owns (greedy_realloc_owns ho))
        intro p h' ho'
        have hread : Ensures (value_loop quoted false (some p) (r ++ [c]) s) h' _ _ := ih ho'
        refine ensures_mono hread ?_ fun _ h => h
        rintro ⟨value', r', rest⟩ h'' ⟨hmem, v, rfl, hr⟩
        refine ⟨hmem, c :: v, by simp, ?_⟩
        cases escaped with
        | true => exact hr.cons_escaped
        | false => exact hr.cons_plain (by simpa using hc) (by simpa using hend)

end value

/-! ## Section 3: Components -/

/-- `bus_message_type_to_string` -/
def bus_message_type_to_string (u : UInt8) : Option (List UInt8) :=
  if u = 4 then some (ascii "signal")
  else if u = 1 then some (ascii "method_call")
  else if u = 3 then some (ascii "error")
  else if u = 2 then some (ascii "method_return")
  else none

/-- A component with a value of the kind that its type has: the type of a
    message, which is one of the four, or else any string. -/
def BusMatchComponent.Valid (c : BusMatchComponent) : Prop :=
  if c.type = .message_type then (bus_message_type_to_string c.value.u8).isSome ∧ c.value.str = []
  else c.value.u8 = 0

/-- The value of a component, as a string. -/
def BusMatchComponent.text (c : BusMatchComponent) : List UInt8 :=
  if c.type = .message_type then (bus_message_type_to_string c.value.u8).getD []
  else c.value.str

/-- A value in quotes, or without them. -/
inductive ValueText : List UInt8 → List UInt8 → Prop
  | quoted {v t : List UInt8} : Written true v t → ValueText v (0x27 :: (t ++ [0x27]))
  | unquoted {v t : List UInt8} : Written false v t → t.head? ≠ some 0x27 → ValueText v t

/-- A key, with whitespace in front of it. -/
def key_text (n : Nat) (t : BusMatchNodeType) : List UInt8 :=
  List.replicate n 0x20 ++ (t.key ++ [0x3d])

/-- The texts of a rule: components, each followed by a comma, which the last may
    lack. A backslash at the end of the text stands for nothing. -/
inductive RuleText : List BusMatchComponent → List UInt8 → Prop
  | nil : RuleText [] []
  | last {c : BusMatchComponent} {n : Nat} {t : List UInt8} :
      c.Valid → ValueText c.text t → RuleText [c] (key_text n c.type ++ t)
  | backslash {c : BusMatchComponent} {n : Nat} {t : List UInt8} :
      c.Valid → Written false c.text t → t.head? ≠ some 0x27 →
        RuleText [c] (key_text n c.type ++ (t ++ [0x5c]))
  | more {c : BusMatchComponent} {n : Nat} {t s : List UInt8} {cs : List BusMatchComponent} :
      c.Valid → ValueText c.text t → RuleText cs s →
        RuleText (c :: cs) (key_text n c.type ++ (t ++ 0x2c :: s))

section component
variable {text k p v : List UInt8} {n : Nat} {t : BusMatchNodeType} {u : UInt8}

/-- The names of the types of messages. -/
theorem bus_message_type_iff :
    bus_message_type_from_string v = .ok u ↔ bus_message_type_to_string u = some v := by
  unfold bus_message_type_from_string bus_message_type_to_string
  constructor
  · intro h
    repeat' split at h
    all_goals cases h
    all_goals (subst_vars; rfl)
  · intro h
    repeat' split at h
    all_goals cases h
    all_goals (subst_vars; decide)

theorem bus_message_type_not_abort (v : List UInt8) : bus_message_type_from_string v ≠ .abort := by
  unfold bus_message_type_from_string
  repeat' split
  all_goals nofun

/-- The characters of a key. -/
theorem key_plain (t : BusMatchNodeType) : t.key ≠ [] ∧ ∀ c ∈ t.key, c ≠ 0x20 ∧ c ≠ 0x3d := by
  have hone : ∀ i : Fin 64, ∀ f ∈ [arg, .arg_path, .arg_namespace, .arg_has],
      (f i).key ≠ [] ∧ (f i).key.all (fun c => c ≠ 0x20 && c ≠ 0x3d) = true := by
    decide +kernel
  have hkey : t.key ≠ [] ∧ t.key.all (fun c => c ≠ 0x20 && c ≠ 0x3d) = true := by
    cases t with
    | arg i => exact hone i _ (by simp)
    | arg_path i => exact hone i _ (by simp)
    | arg_namespace i => exact hone i _ (by simp)
    | arg_has i => exact hone i _ (by simp)
    | _ => decide
  refine ⟨hkey.1, ?_⟩
  intro c hc
  simpa using all_eq_true.mp hkey.2 c hc

/-- What is in front of an equals sign and behind it. -/
theorem split_equals (h : 0x3d ∈ k) :
    k = k.takeWhile (· ≠ 0x3d) ++ 0x3d :: k.drop ((k.takeWhile (· ≠ 0x3d)).length + 1) := by
  induction k with
  | nil => cases h
  | cons c k ih =>
    by_cases hc : c = 0x3d
    · simp [hc]
    · have hmem : 0x3d ∈ k := (mem_cons.mp h).resolve_left fun heq => hc heq.symm
      have hcons : (c :: k).takeWhile (· ≠ 0x3d) = c :: k.takeWhile (· ≠ 0x3d) := by simp [hc]
      rw [hcons, cons_append, length_cons, drop_succ_cons, ← ih hmem]

/-- Before the value there is a key. -/
theorem read_key_iff : read_key text = .ok (t, p) ↔ ∃ n, text = key_text n t ++ p := by
  constructor
  · intro h
    unfold read_key at h
    dsimp only at h
    split at h
    · next heq =>
      rw [contains_iff_mem] at heq
      have hsplit := split_equals heq
      split at h
      · next t' ht =>
        cases h
        have hkey : (text.dropWhile (· = 0x20)).takeWhile (· ≠ 0x3d) = t.key := by
          apply bus_match_node_type_some
          rw [← bus_match_node_type_append, ← hsplit]
          exact ht
        refine ⟨(text.takeWhile (· = 0x20)).length, ?_⟩
        have hspaces : text.takeWhile (· = 0x20) =
            replicate (text.takeWhile (· = 0x20)).length 0x20 := by
          rw [eq_replicate_iff]
          refine ⟨rfl, fun c hc => ?_⟩
          simpa using mem_takeWhile_imp hc
        unfold key_text
        rw [← hkey, ← hspaces, append_assoc, append_assoc, singleton_append,
          ← hsplit, takeWhile_append_dropWhile]
      · cases h
    · cases h
  · rintro ⟨n, rfl⟩
    obtain ⟨hne, hplain⟩ := key_plain t
    have hdrop : (key_text n t ++ p).dropWhile (· = 0x20) = t.key ++ 0x3d :: p := by
      have hspaces : ∀ c ∈ replicate n (0x20 : UInt8), decide (c = 0x20) = true := by
        intro c hc
        rw [eq_of_mem_replicate hc]
        rfl
      obtain ⟨c, key, hkey⟩ := exists_cons_of_ne_nil hne
      have hc : c ≠ 0x20 := (hplain c (hkey ▸ mem_cons_self)).1
      unfold key_text
      rw [append_assoc, hkey]
      simp [hc]
    have htake : (t.key ++ 0x3d :: p).takeWhile (· ≠ 0x3d) = t.key := by
      have hall : ∀ c ∈ t.key, decide (c ≠ 0x3d) = true :=
        fun c hc => by simpa using (hplain c hc).2
      rw [takeWhile_append_of_pos hall]
      simp
    have hmem : (t.key ++ 0x3d :: p).contains 0x3d = true := by simp
    unfold read_key
    dsimp only
    rw [hdrop, htake, bus_match_node_type_iff.mpr rfl]
    simp

theorem read_key_not_abort (text : List UInt8) : read_key text ≠ .abort := by
  unfold read_key
  dsimp only
  repeat' split
  all_goals nofun

end component

/-! ## Section 4: What is parsed is a rule -/

section sound
variable {m₀ : Memory PUnit} {blocks : List Nat} {h : Heap} {text r : List UInt8}
  {t : BusMatchNodeType} {value : Option Nat} {components : Option Nat}
  {cs : List ParsedComponent}

/-- The blocks of the values. -/
def value_blocks (cs : List ParsedComponent) : List Nat := cs.filterMap (·.value_str)

/-- What `parse_component` has read: a component, up to the end of its value. -/
def ReadsComponent (text : List UInt8) (c : BusMatchComponent) (rest : List UInt8) : Prop :=
  c.Valid ∧ ∃ n s, text = key_text n c.type ++ s ∧
    ((∃ t, ValueText c.text t ∧ s = t ++ rest) ∨
      ∃ t, Written false c.text t ∧ t.head? ≠ some 0x27 ∧ s = t ++ [0x5c] ∧ rest = [])

theorem value_or_empty_owns (ho : m₀.Owns h.memory (value.toList ++ blocks)) :
    Ensures (value_or_empty value) h (fun p h' => m₀.Owns h'.memory (p :: blocks))
      (fun h' => m₀.Owns h'.memory blocks) := by
  cases value with
  | none => exact malloc_owns ho
  | some p => exact ho

/-- A component has the value that was read. -/
theorem make_component_owns {p : Nat} (ho : m₀.Owns h.memory (p :: blocks)) :
    Ensures (make_component t p r) h
      (fun c h' => m₀.Owns h'.memory (c.value_str.toList ++ blocks) ∧ c.component.Valid ∧
        c.component.type = t ∧ c.component.text = r) (fun h' => m₀.Owns h'.memory blocks) := by
  unfold make_component
  split
  · next ht =>
    have hlift : Ensures (lift (bus_message_type_from_string r)) h
        (fun u h' => m₀.Owns h'.memory ((some p).toList ++ blocks) ∧
          bus_message_type_to_string u = some r)
        (fun h' => m₀.Owns h'.memory ((some p).toList ++ blocks)) := by
      match hr : bus_message_type_from_string r with
      | .ok u => exact ⟨ho, bus_message_type_iff.mp hr⟩
      | .err e => exact ho
      | .abort => exact absurd hr (bus_message_type_not_abort r)
    apply ensures_bind (cleanup_value_owns hlift)
    rintro u h' ⟨ho', hu⟩
    apply ensures_bind (free_owns ho')
    intro _ h'' ho''
    refine ensures_pure ⟨ho'', ?_, rfl, ?_⟩
    · simp [BusMatchComponent.Valid, ht, hu]
    · simp [BusMatchComponent.text, ht, hu]
  · next ht =>
    refine ensures_pure ⟨ho, ?_, rfl, ?_⟩
    · simp [BusMatchComponent.Valid, ht]
    · simp [BusMatchComponent.text, ht]

theorem head_ne_of_append {c : UInt8} {a b : List UInt8} (h : (a ++ b).head? ≠ some c) :
    a.head? ≠ some c := by
  cases a with
  | nil => simp
  | cons d a => exact h

variable {rest : List UInt8}

/-- What the loop over the value has read, from the first byte after the equals
    sign on. -/
theorem reads_value {p v : List UInt8} {quoted : Bool} (hq : quoted = decide (p.head? = some 0x27))
    (hr : Reads quoted v (if quoted then p.tail else p) rest) :
    (∃ t, ValueText v t ∧ p = t ++ rest) ∨
      ∃ t, Written false v t ∧ t.head? ≠ some 0x27 ∧ p = t ++ [0x5c] ∧ rest = [] := by
  cases quoted with
  | true =>
    have hhead : p.head? = some 0x27 := of_decide_eq_true hq.symm
    obtain ⟨q, rfl⟩ : ∃ q, p = 0x27 :: q := by
      cases p with
      | nil => cases hhead
      | cons c q => exact ⟨q, by rw [some.inj hhead]⟩
    cases hr with
    | quoted hw => exact .inl ⟨_, .quoted hw, by simp⟩
  | false =>
    have hhead : p.head? ≠ some 0x27 := of_decide_eq_false hq.symm
    cases hr with
    | unquoted hw hrest =>
      exact .inl ⟨_, .unquoted hw (head_ne_of_append hhead), rfl⟩
    | backslash hw => exact .inr ⟨_, hw, head_ne_of_append hhead, rfl, rfl⟩

/-- A component is read, with a block for its string. -/
theorem parse_component_reads (ho : m₀.Owns h.memory blocks) : Ensures (parse_component text) h
      (fun x h' => m₀.Owns h'.memory (x.1.value_str.toList ++ blocks) ∧
        ReadsComponent text x.1.component x.2) (fun h' => m₀.Owns h'.memory blocks) := by
  refine ensures_lift_bind (fun _ _ => ?_) (read_key_not_abort text) ?_
  · exact ho
  rintro ⟨t, p⟩ hkey
  obtain ⟨n, rfl⟩ := read_key_iff.mp hkey
  have hnone : m₀.Owns h.memory ((none : Option Nat).toList ++ blocks) := ho
  apply ensures_bind (value_loop_reads hnone)
  rintro ⟨value, r, rest⟩ h1 ⟨ho1, v, hr, hreads⟩
  apply ensures_bind (value_or_empty_owns ho1)
  intro block h2 ho2
  apply ensures_bind (make_component_owns ho2)
  rintro c h3 ⟨ho3, hvalid, rfl, htext⟩
  have hv : v = c.component.text := by
    rw [htext]
    exact hr.symm
  rw [hv] at hreads
  exact ensures_pure ⟨ho3, hvalid, n, p, rfl, reads_value rfl hreads⟩

theorem value_blocks_cons (c : ParsedComponent) (cs : List ParsedComponent) :
    value_blocks (c :: cs) = c.value_str.toList ++ value_blocks cs := by
  unfold value_blocks
  rw [filterMap_cons]
  cases c.value_str with
  | none => rfl
  | some p => rfl

theorem bus_match_parse_free_owns {E : Heap → Prop}
    (ho : m₀.Owns h.memory (value_blocks cs ++ (components.toList ++ blocks))) :
    Ensures (bus_match_parse_free components cs) h (fun _ h' => m₀.Owns h'.memory blocks) E := by
  induction cs generalizing h with
  | nil => exact free_owns ho
  | cons c cs ih =>
    rw [value_blocks_cons, append_assoc] at ho
    apply ensures_bind (free_owns ho)
    intro _ h' ho'
    exact ih ho'

/-- Where an error leaves the array and the components they are freed. -/
theorem cleanup_components_owns {α : Type} {x : Call Heap α} {Q : α → Heap → Prop}
    (hx : Ensures x h Q fun h' =>
      m₀.Owns h'.memory (value_blocks cs ++ (components.toList ++ blocks))) :
    Ensures (cleanup x (bus_match_parse_free components cs)) h Q
      fun h' => m₀.Owns h'.memory blocks :=
  ensures_cleanup hx fun _ ho => bus_match_parse_free_owns ho

variable {c : BusMatchComponent}

/-- There is less behind a component. -/
theorem ReadsComponent.length (hr : ReadsComponent text c rest) : rest.length < text.length := by
  obtain ⟨-, n, s, rfl, hs⟩ := hr
  have hkey : 0 < (key_text n c.type).length := by
    unfold key_text
    simp only [length_append, length_singleton]
    omega
  have hrest : rest.length ≤ s.length := by
    rcases hs with ⟨t, -, rfl⟩ | ⟨t, -, -, -, rfl⟩
    · simp
    · simp
  rw [length_append]
  omega

/-- The last component. -/
theorem ReadsComponent.last (hr : ReadsComponent text c []) : RuleText [c] text := by
  obtain ⟨hvalid, n, s, rfl, ⟨t, ht, rfl⟩ | ⟨t, ht, hhead, rfl, -⟩⟩ := hr
  · rw [append_nil]
    exact .last hvalid ht
  · exact .backslash hvalid ht hhead

/-- A component with a comma behind it. -/
theorem ReadsComponent.more {l : List BusMatchComponent} (hr : ReadsComponent text c (0x2c :: rest))
    (hl : RuleText l rest) : RuleText (c :: l) text := by
  obtain ⟨hvalid, n, s, rfl, ⟨t, ht, rfl⟩ | ⟨t, -, -, -, hrest⟩⟩ := hr
  · exact .more hvalid ht hl
  · cases hrest

/-- The loop reads the text of a rule, and owns the array and the values. -/
theorem parse_loop_reads {fuel : Nat} (hfuel : text.length ≤ fuel)
    (ho : m₀.Owns h.memory (value_blocks cs ++ (components.toList ++ blocks))) :
    Ensures (parse_loop fuel components cs text) h
      (fun x h' => m₀.Owns h'.memory (value_blocks x.2 ++ (x.1.toList ++ blocks)) ∧
        ∃ l, RuleText l text ∧ x.2.map (·.component) = cs.map (·.component) ++ l)
      (fun h' => m₀.Owns h'.memory blocks) := by
  induction fuel generalizing text components cs h with
  | zero =>
    obtain rfl := length_eq_zero_iff.mp (Nat.le_zero.mp hfuel)
    exact ensures_pure ⟨ho, [], .nil, (append_nil _).symm⟩
  | succ fuel ih =>
    cases text with
    | nil => exact ensures_pure ⟨ho, [], .nil, (append_nil _).symm⟩
    | cons b text =>
      apply ensures_bind (cleanup_components_owns (parse_component_reads ho))
      rintro ⟨c, rest⟩ h1 ⟨ho1, hr⟩
      have harray : m₀.Owns h1.memory (components.toList ++ (value_blocks (c :: cs) ++ blocks)) := by
        refine ho1.perm ?_
        rw [value_blocks_cons, ← append_assoc]
        exact perm_append_comm_assoc _ _ _
      have hgrow : Ensures (greedy_realloc components) h1
          (fun p h' => m₀.Owns h'.memory (p :: (value_blocks (c :: cs) ++ blocks)))
          (fun h' => m₀.Owns h'.memory
            (value_blocks (c :: cs) ++ (components.toList ++ blocks))) :=
        ensures_mono (greedy_realloc_owns harray) (fun _ _ h => h)
          fun _ h => h.perm (perm_append_comm_assoc _ _ _)
      apply ensures_bind (cleanup_components_owns hgrow)
      intro p h2 ho2
      have hall : m₀.Owns h2.memory (value_blocks (cs ++ [c]) ++ ((some p).toList ++ blocks)) := by
        have hlast : (value_blocks (c :: cs)).Perm (value_blocks (cs ++ [c])) :=
          (perm_append_singleton c cs).symm.filterMap _
        refine ho2.perm ?_
        exact ((hlast.append_right blocks).cons p).trans perm_middle.symm
      have hlen := hr.length
      cases rest with
      | nil =>
        refine ensures_pure ⟨hall, [c.component], hr.last, ?_⟩
        rw [map_append]
        rfl
      | cons d rest =>
        dsimp only
        split
        · next hd =>
          subst hd
          have hshort : rest.length ≤ fuel := by
            rw [length_cons] at hlen
            omega
          refine ensures_mono (ih hshort hall) ?_ fun _ h => h
          rintro x h3 ⟨ho3, l, hl, hx⟩
          refine ⟨ho3, c.component :: l, hr.more hl, ?_⟩
          rw [hx, map_append, append_assoc]
          rfl
        · exact cleanup_components_owns (ensures_fail hall)

end sound

end SdCompat.Match
