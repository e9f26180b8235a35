import Mathlib.Data.List.TakeWhile
import SdCompat.Basic.ParseUtil
import SdCompat.SdBus.Type

/-! # Labels of object paths (bus-label.c)

    Any string as a label of an object path. What was escaped is a label, and
    unescaping it gives the string back (`unescape_escape`).
-/

namespace SdCompat.Bus

open List

/-! ## Section 1: Escaping -/

/-- `hexchar` -/
def hexchar (x : UInt8) : UInt8 :=
  if x &&& 15 < 10 then 0x30 + (x &&& 15) else 0x61 + ((x &&& 15) - 10)

/-- The loop of `bus_label_escape`; digits are escaped at the start only. -/
def label_escape_loop : Bool → List UInt8 → List UInt8
  | _, [] => []
  | first, c :: f =>
    if ascii_isalpha c || (!first && ascii_isdigit c) then c :: label_escape_loop false f
    else 0x5f :: hexchar (c >>> 4) :: hexchar c :: label_escape_loop false f

/-- `bus_label_escape` -/
def bus_label_escape (s : List UInt8) : List UInt8 :=
  if s = [] then [0x5f] else label_escape_loop true s

/-- The loop of `bus_label_unescape_n`: an invalid escape code is taken
    literally. -/
def label_unescape_loop : List UInt8 → List UInt8
  | [] => []
  | c :: f =>
    if c = 0x5f then
      match f with
      | x :: y :: rest =>
        match unhexchar x, unhexchar y with
        | some a, some b => (a <<< 4 ||| b) :: label_unescape_loop rest
        | _, _ => 0x5f :: label_unescape_loop (x :: y :: rest)
      | f => 0x5f :: label_unescape_loop f
    else c :: label_unescape_loop f
termination_by f => f.length

/-- `bus_label_unescape_n`: the string that is in the buffer in the end. -/
def bus_label_unescape_n (f : List UInt8) (l : Nat) : List UInt8 :=
  if l = 1 ∧ f.head? = some 0x5f then []
  else (label_unescape_loop (f.take l)).takeWhile (· ≠ 0)

/-! ## Section 2: What escaping gives -/

/-- The characters of a label. -/
def is_label_char (c : UInt8) : Bool := ascii_isalpha c || ascii_isdigit c || c == 0x5f

theorem unhexchar_hexchar (c : UInt8) : unhexchar (hexchar c) = some (c &&& 15) :=
  forall_byte (P := fun c => unhexchar (hexchar c) = some (c &&& 15)) (by decide +kernel) c

theorem high_low (c : UInt8) : (c >>> 4 &&& 15) <<< 4 ||| (c &&& 15) = c :=
  forall_byte (P := fun c => (c >>> 4 &&& 15) <<< 4 ||| (c &&& 15) = c) (by decide +kernel) c

theorem hexchar_label (c : UInt8) : is_label_char (hexchar c) = true :=
  forall_byte (P := fun c => is_label_char (hexchar c) = true) (by decide +kernel) c

/-- A character that is not escaped is none that starts an escape code. -/
theorem ne_underscore {c : UInt8} {first : Bool}
    (h : (ascii_isalpha c || (!first && ascii_isdigit c)) = true) : c ≠ 0x5f := by
  rintro rfl
  revert h
  cases first <;> decide

theorem label_unescape_loop_escape (first : Bool) (s : List UInt8) :
    label_unescape_loop (label_escape_loop first s) = s := by
  induction s generalizing first with
  | nil =>
    unfold label_escape_loop label_unescape_loop
    rfl
  | cons c f ih =>
    unfold label_escape_loop
    by_cases hc : (ascii_isalpha c || (!first && ascii_isdigit c)) = true
    · rw [if_pos hc]
      unfold label_unescape_loop
      rw [if_neg (ne_underscore hc), ih]
    · rw [if_neg hc]
      unfold label_unescape_loop
      rw [if_pos rfl]
      simp only [unhexchar_hexchar, high_low, ih]

theorem label_escape_loop_label (first : Bool) (s : List UInt8) :
    ∀ c ∈ label_escape_loop first s, is_label_char c = true := by
  induction s generalizing first with
  | nil =>
    intro c hc
    cases hc
  | cons d f ih =>
    intro c hc
    unfold label_escape_loop at hc
    split at hc
    · next hd =>
      rcases mem_cons.mp hc with rfl | hc
      · unfold is_label_char
        rw [Bool.or_eq_true, Bool.and_eq_true] at hd
        rcases hd with ha | ⟨_, hn⟩
        · simp [ha]
        · simp [hn]
      · exact ih false c hc
    · rcases mem_cons.mp hc with rfl | hc
      · decide
      rcases mem_cons.mp hc with rfl | hc
      · exact hexchar_label _
      rcases mem_cons.mp hc with rfl | hc
      · exact hexchar_label _
      · exact ih false c hc

variable {s : List UInt8}

theorem label_escape_loop_alpha (first : Bool) (h : ∀ c ∈ s, ascii_isalpha c = true) :
    label_escape_loop first s = s := by
  induction s generalizing first with
  | nil => rfl
  | cons c f ih =>
    have hc := h c mem_cons_self
    unfold label_escape_loop
    rw [hc, Bool.true_or, if_pos rfl, ih false fun d hd => h d (mem_cons_of_mem _ hd)]

theorem bus_label_escape_label (s : List UInt8) :
    ∀ c ∈ bus_label_escape s, is_label_char c = true := by
  unfold bus_label_escape
  split
  · intro c hc
    rw [mem_singleton.mp hc]
    decide
  · exact label_escape_loop_label true s

/-- There is no empty label. -/
theorem bus_label_escape_ne_nil (s : List UInt8) : bus_label_escape s ≠ [] := by
  unfold bus_label_escape
  split
  · simp
  · next hs =>
    cases s with
    | nil => exact absurd rfl hs
    | cons c f =>
      unfold label_escape_loop
      split
      · simp
      · simp

/-- Only the empty string is escaped as a single underscore. -/
theorem label_escape_loop_ne (first : Bool) : label_escape_loop first s ≠ [0x5f] := by
  cases s with
  | nil => simp [label_escape_loop]
  | cons c f =>
    unfold label_escape_loop
    split
    · next hc =>
      intro heq
      exact ne_underscore hc (cons.inj heq).1
    · simp

/-- **Unescaping** gives the string back, whatever follows the label. -/
theorem unescape_escape (h0 : 0 ∉ s) (rest : List UInt8) :
    bus_label_unescape_n (bus_label_escape s ++ rest) (bus_label_escape s).length = s := by
  unfold bus_label_escape
  split
  · next hs =>
    rw [hs]
    rfl
  · next hs =>
    unfold bus_label_unescape_n
    have hsingle : ¬ ((label_escape_loop true s).length = 1 ∧
        (label_escape_loop true s ++ rest).head? = some 0x5f) := by
      rintro ⟨hlen, hhead⟩
      obtain ⟨c, hc⟩ := length_eq_one_iff.mp hlen
      rw [hc] at hhead
      obtain rfl : c = 0x5f := Option.some.inj hhead
      exact label_escape_loop_ne true hc
    rw [if_neg hsingle, take_left, label_unescape_loop_escape, takeWhile_eq_self_iff]
    intro c hc
    have hne : c ≠ 0 := fun h => h0 (h ▸ hc)
    simpa using hne

theorem bus_label_escape_inj {t : List UInt8} (h : bus_label_escape s = bus_label_escape t) :
    s = t := by
  unfold bus_label_escape at h
  split at h
  · next hs =>
    split at h
    · next ht => rw [hs, ht]
    · exact absurd h.symm (label_escape_loop_ne true)
  · split at h
    · exact absurd h (label_escape_loop_ne true)
    · rw [← label_unescape_loop_escape true s, h, label_unescape_loop_escape]

end SdCompat.Bus
