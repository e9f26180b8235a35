import Mathlib.Data.List.Infix
import Mathlib.Logic.Function.Basic
import SdCompat.Basic.Common

/-! # Bounded escaping (string-util.c, escape.c)

    `cellescape` escapes a string into a buffer, with an ellipsis when it does
    not fit. It keeps the widths of the last four characters in a ring, to take
    them back for the ellipsis.
-/

namespace SdCompat.Escape

open List Function

/-! ## Section 1: Model -/

def octchar (x : Nat) : UInt8 := UInt8.ofNat (0x30 + x % 8)

/-- `cescape_char` -/
def cescape_char (c : UInt8) : List UInt8 :=
  match c with
  | 0x07 => [0x5c, 0x61]
  | 0x08 => [0x5c, 0x62]
  | 0x0c => [0x5c, 0x66]
  | 0x0a => [0x5c, 0x6e]
  | 0x0d => [0x5c, 0x72]
  | 0x09 => [0x5c, 0x74]
  | 0x0b => [0x5c, 0x76]
  | 0x5c => [0x5c, 0x5c]
  | 0x22 => [0x5c, 0x22]
  | 0x27 => [0x5c, 0x27]
  | c =>
    if c < 0x20 || 127 ≤ c then
      [0x5c, octchar (c.toNat >>> 6), octchar (c.toNat >>> 3), octchar c.toNat]
    else [c]

/-- Writing into a buffer, which fails when it is too small. -/
def memcpy (buf : List UInt8) (i : Nat) (bytes : List UInt8) : Option (List UInt8) :=
  if i + bytes.length ≤ buf.length then
    some (buf.take i ++ bytes ++ buf.drop (i + bytes.length))
  else none

/-- The variables of `cellescape`. -/
structure Cell where
  buf : List UInt8
  i : Nat
  last_char_width : Fin 4 → Nat
  k : Fin 4

/-- The first loop, and whether it has reached the end of the string. -/
def fill (len : Nat) (x : Cell) : List UInt8 → Option (Bool × Cell)
  | [] => some (true, x)
  | c :: s =>
    let four := cescape_char c
    if len < x.i + four.length + 1 then some (false, x)
    else
      match memcpy x.buf x.i four with
      | none => none
      | some buf =>
        fill len
          { buf
            i := x.i + four.length
            last_char_width := update x.last_char_width x.k four.length
            k := x.k + 1 } s

/-- The second loop, in at most so many rounds. -/
def walk_back (len : Nat) : Nat → Cell → Option Cell
  | 0, x => some x
  | j + 1, x =>
    if x.i + 4 ≤ len then some x
    else
      let k := x.k - 1
      if x.last_char_width k = 0 then some { x with k }
      -- `assert(i >= last_char_width[k])`
      else if x.i < x.last_char_width k then none
      else walk_back len j { x with i := x.i - x.last_char_width k, k }

/-- `glyph_full (GLYPH_ELLIPSIS, false)`, which depends on the locale. -/
def glyph_ellipsis (is_locale_utf8 : Bool) : List UInt8 :=
  if is_locale_utf8 then [0xe2, 0x80, 0xa6] else [0x2e, 0x2e, 0x2e]

/-- `cellescape`, with the buffer as it was; there is no result when something
    is written outside of it. -/
def cellescape (is_locale_utf8 : Bool) (buf s : List UInt8) : Option (List UInt8) :=
  let len := buf.length
  match fill len ⟨buf, 0, fun _ => 0, 0⟩ s with
  | none => none
  | some (true, x) => memcpy x.buf x.i [0]
  | some (false, x) =>
    match walk_back len 4 x with
    | none => none
    | some x =>
      let dots :=
        if x.i + 4 ≤ len then glyph_ellipsis is_locale_utf8
        else if x.i + 3 ≤ len then [0x2e, 0x2e]
        else if x.i + 2 ≤ len then [0x2e]
        else []
      (memcpy x.buf x.i dots).bind fun buf => memcpy buf (x.i + dots.length) [0]

/-! ## Section 2: What is to be shown -/

/-- The escaped form. -/
def cescape (s : List UInt8) : List UInt8 := s.flatMap cescape_char

/-- The ellipsis of this length; one of three is `glyph`. -/
def ellipsis (glyph : List UInt8) (n : Nat) : List UInt8 :=
  if n = 3 then glyph else List.replicate n 0x2e

/-- The escaped form, if it fits with its terminator, or else that of a
    beginning with the longest ellipsis that fits. -/
def Shows (glyph : List UInt8) (len : Nat) (s t : List UInt8) : Prop :=
  if (cescape s).length < len then t = cescape s
  else ∃ n < s.length, t = cescape (s.take n) ++ ellipsis glyph (min 3 (len - 1))

/-! ## Section 3: The two loops -/

theorem cescape_char_length (c : UInt8) : 0 < (cescape_char c).length := by
  unfold cescape_char
  split
  all_goals first
    | exact Nat.zero_lt_succ _
    | split <;> exact Nat.zero_lt_succ _

theorem memcpy_ok (buf bytes : List UInt8) (i : Nat) (h : i + bytes.length ≤ buf.length) :
    ∃ buf', memcpy buf i bytes = some buf' ∧ buf'.length = buf.length ∧
      buf'.take (i + bytes.length) = buf.take i ++ bytes := by
  refine ⟨_, if_pos h, ?_, ?_⟩
  · simp only [length_append, length_take, length_drop]
    omega
  · have hlen : (buf.take i ++ bytes).length = i + bytes.length := by
      rw [length_append, length_take]
      omega
    rw [← hlen, take_left]

/-- The ring holds the widths of the last characters, with the last one first in
    `q`, and zero before the first one. -/
def Ring (w : Fin 4 → Nat) : Fin 4 → Nat → List UInt8 → Prop
  | _, 0, _ => True
  | k, _ + 1, [] => w (k - 1) = 0
  | k, n + 1, c :: q => w (k - 1) = (cescape_char c).length ∧ Ring w (k - 1) n q

theorem turn (k : Fin 4) : k - 1 ≠ k ∧ k - 1 - 1 ≠ k ∧ k - 1 - 1 - 1 ≠ k ∧ k + 1 - 1 = k := by
  decide +revert

variable {q : List UInt8}

theorem ring_update {w : Fin 4 → Nat} {k : Fin 4} (v : Nat) (h : Ring w k 4 q) :
    Ring (update w k v) k 3 q := by
  obtain ⟨h1, h2, h3, -⟩ := turn k
  rcases q with _ | ⟨c, _ | ⟨c', _ | ⟨c'', q⟩⟩⟩ <;>
    simp_all [Ring]

/-- This much of the string has been written. -/
structure Filled (len : Nat) (x : Cell) (p : List UInt8) : Prop where
  length : x.buf.length = len
  shown : x.buf.take x.i = cescape p
  index : x.i = (cescape p).length
  room : x.i < len

variable {len : Nat}

theorem fill_ok {s : List UInt8} {x : Cell} (h : Filled len x q.reverse)
    (hring : Ring x.last_char_width x.k 4 q) :
    ∃ x' q' s', fill len x s = some (decide (s' = []), x') ∧ q.reverse ++ s = q'.reverse ++ s' ∧
      Filled len x' q'.reverse ∧ Ring x'.last_char_width x'.k 4 q' ∧
      (s' ≠ [] → len ≤ (cescape (q.reverse ++ s)).length) := by
  induction s generalizing x q with
  | nil => exact ⟨x, q, [], rfl, rfl, h, hring, fun hne => absurd rfl hne⟩
  | cons c s ih =>
    have hcons : cescape (c :: q).reverse = cescape q.reverse ++ cescape_char c := by
      simp [cescape]
    unfold fill
    dsimp only
    split
    · next hfull =>
      refine ⟨x, q, c :: s, rfl, rfl, h, hring, fun _ => ?_⟩
      have hindex := h.index
      simp only [cescape, flatMap_append, flatMap_cons, length_append] at hindex ⊢
      omega
    · next hfits =>
      obtain ⟨buf, hbuf, hlen, htake⟩ :=
        memcpy_ok x.buf (cescape_char c) x.i (by rw [h.length]; omega)
      rw [hbuf]
      have hnext : Filled len
          { buf
            i := x.i + (cescape_char c).length
            last_char_width := update x.last_char_width x.k (cescape_char c).length
            k := x.k + 1 } (c :: q).reverse := by
        refine ⟨hlen.trans h.length, ?_, ?_, show x.i + _ < len by omega⟩
        · rw [htake, h.shown, hcons]
        · rw [hcons, length_append, ← h.index]
      obtain ⟨-, -, -, hk⟩ := turn x.k
      obtain ⟨x', q', s', hfill, hs, hq, hr, hlong⟩ := ih hnext (by
        dsimp only
        refine ⟨?_, ?_⟩
        · rw [hk, update_self]
        · rw [hk]
          exact ring_update _ hring)
      rw [reverse_cons, append_assoc] at hs hlong
      exact ⟨x', q', s', hfill, hs, hq, hr, hlong⟩

theorem walk_back_ok {n : Nat} {x : Cell} (h : Filled len x q.reverse)
    (hring : Ring x.last_char_width x.k n q) (hi : x.i + 4 ≤ len + n) :
    ∃ x' p, walk_back len n x = some x' ∧ p <+: q.reverse ∧ Filled len x' p ∧
      (x'.i + 4 ≤ len ∨ x'.i = 0) := by
  induction n generalizing x q with
  | zero => exact ⟨x, q.reverse, rfl, prefix_refl _, h, .inl hi⟩
  | succ n ih =>
    unfold walk_back
    split
    · next hroom =>
      exact ⟨x, q.reverse, rfl, prefix_refl _, h, .inl hroom⟩
    · cases q with
      | nil =>
        have hzero : x.last_char_width (x.k - 1) = 0 := hring
        rw [if_pos hzero]
        exact ⟨_, [], rfl, nil_prefix, ⟨h.length, h.shown, h.index, h.room⟩, .inr h.index⟩
      | cons c q =>
        have hcons : cescape (c :: q).reverse = cescape q.reverse ++ cescape_char c := by
          simp [cescape]
        have hpos := cescape_char_length c
        obtain ⟨hlen, hshown, hindex, hlt⟩ := h
        rw [hcons, length_append] at hindex
        dsimp only
        rw [hring.1, if_neg (by omega), if_neg (by omega)]
        have hback : Filled len
            { x with i := x.i - (cescape_char c).length, k := x.k - 1 } q.reverse := by
          refine ⟨hlen, ?_, ?_, ?_⟩
          · have htake := congrArg (take (x.i - (cescape_char c).length)) hshown
            rw [take_take, Nat.min_eq_left (Nat.sub_le _ _), hcons, hindex,
              Nat.add_sub_cancel, take_left] at htake
            rw [hindex, Nat.add_sub_cancel]
            exact htake
          · exact (by rw [hindex, Nat.add_sub_cancel] : x.i - (cescape_char c).length = _)
          · exact Nat.lt_of_le_of_lt (Nat.sub_le _ _) hlt
        obtain ⟨x', p, hwalk, hp, hx', hend⟩ := ih hback hring.2
          (show x.i - (cescape_char c).length + 4 ≤ len + n by omega)
        refine ⟨x', p, hwalk, hp.trans ?_, hx', hend⟩
        rw [reverse_cons]
        exact prefix_append _ _

theorem terminated {buf t : List UInt8} (ht : buf.take t.length = t)
    (hroom : t.length < buf.length) :
    ∃ buf', memcpy buf t.length [0] = some buf' ∧ buf'.length = buf.length ∧ t ++ [0] <+: buf' := by
  obtain ⟨buf', hbuf, hlen, htake⟩ := memcpy_ok buf [0] t.length hroom
  refine ⟨buf', hbuf, hlen, ?_⟩
  rw [ht] at htake
  rw [← htake]
  exact take_prefix _ _

theorem cellescape_shows (is_locale_utf8 : Bool) (b : UInt8) (buf s : List UInt8) :
    ∃ buf' t, cellescape is_locale_utf8 (b :: buf) s = some buf' ∧
      buf'.length = (b :: buf).length ∧ t ++ [0] <+: buf' ∧
      Shows (glyph_ellipsis is_locale_utf8) (b :: buf).length s t := by
  have hstart : Filled (b :: buf).length ⟨b :: buf, 0, fun _ => 0, 0⟩ ([] : List UInt8).reverse :=
    ⟨rfl, rfl, rfl, Nat.zero_lt_succ _⟩
  obtain ⟨x, q, s', hfill, hs, hq, hring, hlong⟩ := fill_ok (s := s) hstart rfl
  rw [reverse_nil, nil_append] at hs hlong
  unfold cellescape
  dsimp only
  rw [hfill]
  by_cases hs' : s' = []
  · -- all of it fits
    rw [hs', append_nil] at hs
    rw [← hs] at hq
    obtain ⟨hlen, hshown, hindex, hroom⟩ := hq
    rw [hindex] at hshown hroom
    rw [← hlen] at hroom
    obtain ⟨buf', hbuf, hlen', hpre⟩ := terminated hshown hroom
    refine ⟨buf', cescape s, ?_, hlen'.trans hlen, hpre, ?_⟩
    · rw [decide_eq_true hs', ← hbuf, ← hindex]
    · rw [Shows, if_pos (by rwa [hlen] at hroom)]
  · obtain ⟨y, p, hwalk, hp, hy, hend⟩ := walk_back_ok (n := 4) hq hring
      (Nat.add_le_add_right hq.room.le 4)
    rw [decide_eq_false hs']
    dsimp only
    rw [hwalk]
    dsimp only
    obtain ⟨hlen, hshown, hindex, hroom⟩ := hy
    have hdots : (if y.i + 4 ≤ (b :: buf).length then glyph_ellipsis is_locale_utf8
        else if y.i + 3 ≤ (b :: buf).length then [0x2e, 0x2e]
        else if y.i + 2 ≤ (b :: buf).length then [0x2e] else []) =
        ellipsis (glyph_ellipsis is_locale_utf8) (min 3 ((b :: buf).length - 1)) := by
      by_cases h4 : y.i + 4 ≤ (b :: buf).length
      · rw [if_pos h4, Nat.min_eq_left (by omega)]
        rfl
      · -- nothing of the string is left
        have hzero := hend.resolve_left h4
        rw [if_neg h4, Nat.min_eq_right (by omega)]
        split
        · rw [show (b :: buf).length - 1 = 2 by omega]
          rfl
        split
        · rw [show (b :: buf).length - 1 = 1 by omega]
          rfl
        · rw [show (b :: buf).length - 1 = 0 by omega]
          rfl
    have hellipsis : ∀ n, (ellipsis (glyph_ellipsis is_locale_utf8) n).length = n := by
      intro n
      unfold ellipsis
      split
      · next hn =>
        rw [hn]
        cases is_locale_utf8 <;> rfl
      · exact length_replicate
    rw [hdots]
    generalize hn : min 3 ((b :: buf).length - 1) = n
    obtain ⟨b1, h1, hlen1, htake⟩ := memcpy_ok y.buf
      (ellipsis (glyph_ellipsis is_locale_utf8) n) y.i (by rw [hellipsis, hlen]; omega)
    rw [hshown, hindex, ← length_append] at htake
    obtain ⟨buf', hbuf, hlen2, hpre⟩ := terminated htake (by
      rw [length_append, hellipsis, hlen1, hlen, ← hindex]
      omega)
    refine ⟨buf', _, ?_, hlen2.trans (hlen1.trans hlen), hpre, ?_⟩
    · rw [h1, Option.bind_some, ← hbuf, length_append, hindex]
    · rw [Shows, if_neg (Nat.not_lt.mpr (hlong hs')), hn]
      obtain ⟨p', hp'⟩ := hp
      refine ⟨p.length, ?_, ?_⟩
      · have hsl := congrArg length hs
        have hpl := congrArg length hp'
        have hpos := length_pos_iff.mpr hs'
        rw [length_append] at hsl hpl
        omega
      · rw [hs, ← hp', append_assoc, take_left]

/-- In a UTF-8 locale the ellipsis is a character of its own. -/
theorem ellipsis_in_utf8 : ¬ ∃ buf' t, cellescape true [0, 0, 0, 0] [0x61, 0x61, 0x61, 0x61] =
    some buf' ∧ t ++ [0] <+: buf' ∧
      Shows [0x2e, 0x2e, 0x2e] 4 [0x61, 0x61, 0x61, 0x61] t := by
  rintro ⟨buf', t, hbuf, hpre, ht⟩
  have heval : cellescape true [0, 0, 0, 0] [0x61, 0x61, 0x61, 0x61] =
      some [0xe2, 0x80, 0xa6, 0] := by decide
  obtain rfl := Option.some.inj (hbuf.symm.trans heval)
  rw [Shows, if_neg (by decide)] at ht
  obtain ⟨n, hn, rfl⟩ := ht
  have hnone : ∀ n < 4, ¬ cescape ([0x61, 0x61, 0x61, 0x61].take n) ++
      ellipsis [0x2e, 0x2e, 0x2e] 3 ++ [0] <+: [0xe2, 0x80, 0xa6, 0] := by decide
  exact hnone n hn hpre

end SdCompat.Escape
