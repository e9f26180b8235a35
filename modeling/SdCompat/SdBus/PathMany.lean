import Mathlib.Data.List.Count
import SdCompat.SdBus.Label

/-! # Encoding and decoding object paths (sd-bus.c)

    The labels of a path template are where it has a percent sign. Decoding
    gives back what was encoded if there is at most one of them between two
    slashes (`decode_encode`).
-/

namespace SdCompat.Bus

open List

/-! ## Section 1: Encoding -/

/-- The first loop of `sd_bus_path_encode_many`; an argument may be `NULL`. -/
def encode_labels : List UInt8 → List (Option (List UInt8)) → Outcome (List (List UInt8))
  | [], _ => .ok []
  | c :: template, list =>
    if c = 0x25 then
      match list with
      | some arg :: list => do
        let labels ← encode_labels template list
        pure (bus_label_escape arg :: labels)
      | _ => .err .EINVAL
    else encode_labels template list

/-- The second loop: the template with the labels. -/
def encode_path : List UInt8 → List (List UInt8) → List UInt8
  | [], _ => []
  | c :: template, labels =>
    if c = 0x25 then labels.headD [] ++ encode_path template labels.tail
    else c :: encode_path template labels

/-- `sd_bus_path_encode_many`, where there is memory for everything. -/
def sd_bus_path_encode_many (path_template : List UInt8) (list : List (Option (List UInt8))) :
    Outcome (List UInt8) := do
  let labels ← encode_labels path_template list
  pure (encode_path path_template labels)

/-! ## Section 2: Decoding -/

/-- The loop of `sd_bus_path_decode_many`, from these positions. -/
def decode_loop (template path : List UInt8) (labels : List (List UInt8)) :
    Option (List (List UInt8)) :=
  -- everything until the next '%' matches verbatim
  let verbatim := template.takeWhile (· ≠ 0x25)
  if path.take verbatim.length ≠ verbatim then none
  else
    match _h : template.dropWhile (· ≠ 0x25) with
    | [] =>
      -- the end of the template must be the end of the path
      if path.drop verbatim.length = [] then some labels else none
    | _ :: rest =>
      let path := path.drop verbatim.length
      let suffix := rest.takeWhile (· ≠ 0x2f)
      let path_label := path.takeWhile (· ≠ 0x2f)
      if path_label.length < suffix.length ∨
          path_label.drop (path_label.length - suffix.length) ≠ suffix then none
      else
        let label := bus_label_unescape_n path (path_label.length - suffix.length)
        decode_loop (rest.dropWhile (· ≠ 0x2f)) (path.dropWhile (· ≠ 0x2f)) (labels ++ [label])
termination_by template.length
decreasing_by
  have h₁ := (dropWhile_sublist (p := (· ≠ 0x25)) (l := template)).length_le
  have h₂ := (dropWhile_sublist (p := (· ≠ 0x2f)) (l := rest)).length_le
  rw [_h, length_cons] at h₁
  omega

/-- `sd_bus_path_decode_many`: the labels, if the path matches the template. -/
def sd_bus_path_decode_many (path path_template : List UInt8) : Option (List (List UInt8)) :=
  decode_loop path_template path []

/-! ## Section 3: Templates -/

/-- After every percent sign there is a `sep` before the next one; `since` tells
    whether there was a percent sign, and no `sep` since. -/
def separated (sep : UInt8 → Bool) : Bool → List UInt8 → Bool
  | _, [] => true
  | since, c :: template =>
    if c = 0x25 then !since && separated sep true template
    else separated sep (since && !sep c) template

/-- The template with the same label everywhere. -/
def blank_path (template : List UInt8) : List UInt8 :=
  template.map fun c => if c = 0x25 then 0x5f else c

section template
variable {sep : UInt8 → Bool} {verbatim template : List UInt8} {labels : List (List UInt8)}

theorem encode_path_append (h : 0x25 ∉ verbatim) :
    encode_path (verbatim ++ template) labels = verbatim ++ encode_path template labels := by
  induction verbatim with
  | nil => rfl
  | cons c verbatim ih =>
    have hc : c ≠ 0x25 := fun hc => h (hc ▸ mem_cons_self)
    rw [cons_append, encode_path, if_neg hc, ih fun hm => h (mem_cons_of_mem c hm),
      cons_append]

theorem separated_append (h : 0x25 ∉ verbatim) :
    separated sep false (verbatim ++ template) = separated sep false template := by
  induction verbatim with
  | nil => rfl
  | cons c verbatim ih =>
    have hc : c ≠ 0x25 := fun hc => h (hc ▸ mem_cons_self)
    rw [cons_append, separated, if_neg hc, Bool.false_and,
      ih fun hm => h (mem_cons_of_mem c hm)]

/-- Without a `sep` there can be no other percent sign. -/
theorem separated_since (h : ∀ c ∈ verbatim, sep c = false) :
    separated sep true (verbatim ++ template) =
      (!verbatim.contains 0x25 && separated sep true template) := by
  induction verbatim with
  | nil => rfl
  | cons c verbatim ih =>
    have hc := h c mem_cons_self
    rw [cons_append, separated, contains_cons]
    by_cases hp : c = 0x25
    · subst hp
      rfl
    · rw [if_neg hp, hc, Bool.not_false, Bool.true_and,
        ih fun d hd => h d (mem_cons_of_mem c hd)]
      have : ((0x25 : UInt8) == c) = false := by simpa using Ne.symm hp
      rw [this, Bool.false_or]

/-- There is no percent sign in what was encoded. -/
theorem encode_path_label (h : ∀ l ∈ labels, ∀ c ∈ l, is_label_char c = true) :
    0x25 ∉ encode_path template labels := by
  induction template generalizing labels with
  | nil =>
    intro hm
    cases hm
  | cons c template ih =>
    have htail : 0x25 ∉ encode_path template labels.tail :=
      ih fun l hl => h l (mem_of_mem_tail hl)
    intro hm
    unfold encode_path at hm
    split at hm
    · rcases mem_append.mp hm with hm | hm
      · cases labels with
        | nil => cases hm
        | cons l labels => exact absurd (h l mem_cons_self _ hm) (by decide)
      · exact htail hm
    · next hc =>
      rcases mem_cons.mp hm with heq | hm
      · exact hc heq.symm
      · exact ih h hm

end template

/-! ## Section 4: Round trip -/

/-- Where the label of a path ends. -/
theorem takeWhile_stop {p : UInt8 → Bool} {a b : List UInt8} (ha : ∀ c ∈ a, p c = true)
    (hb : ∀ c, b.head? = some c → p c = false) :
    (a ++ b).takeWhile p = a ∧ (a ++ b).dropWhile p = b := by
  rw [takeWhile_append_of_pos ha, dropWhile_append_of_pos ha]
  cases b with
  | nil => simp
  | cons c b =>
    have hc := hb c rfl
    simp [hc]

theorem escaped_labels (raw : List (List UInt8)) :
    ∀ l ∈ raw.map bus_label_escape, ∀ c ∈ l, is_label_char c = true := by
  intro l hl
  obtain ⟨s, _, rfl⟩ := mem_map.mp hl
  exact bus_label_escape_label s

/-- A label has no slash. -/
theorem ne_slash {c : UInt8} (h : is_label_char c = true) : c ≠ 0x2f := by
  rintro rfl
  exact absurd h (by decide)

theorem decode_loop_encode (template : List UInt8) (raw : List (List UInt8))
    (h0 : ∀ s ∈ raw, 0 ∉ s) (hlen : raw.length = template.count 0x25) (labels : List (List UInt8)) :
    decode_loop template (encode_path template (raw.map bus_label_escape)) labels =
      if separated (· == 0x2f) false template then some (labels ++ raw) else none := by
  induction hn : template.length using Nat.strongRecOn generalizing template raw labels with
  | ind n ih =>
  obtain ⟨verbatim, hverbatim⟩ : ∃ v, template.takeWhile (· ≠ 0x25) = v := ⟨_, rfl⟩
  obtain ⟨rest, hrest⟩ : ∃ r, template.dropWhile (· ≠ 0x25) = r := ⟨_, rfl⟩
  have hsplit : template = verbatim ++ rest := by
    rw [← hverbatim, ← hrest, takeWhile_append_dropWhile]
  have hno : 0x25 ∉ verbatim := by
    intro hm
    rw [← hverbatim] at hm
    have := mem_takeWhile_imp hm
    simp at this
  have hpath : encode_path template (raw.map bus_label_escape) =
      verbatim ++ encode_path rest (raw.map bus_label_escape) := by
    rw [hsplit, encode_path_append hno]
  have hcount : template.count 0x25 = rest.count 0x25 := by
    rw [hsplit, count_append, count_eq_zero.mpr hno, Nat.zero_add]
  have hsep : separated (· == 0x2f) false template = separated (· == 0x2f) false rest := by
    rw [hsplit, separated_append hno]
  unfold decode_loop
  simp only [hverbatim]
  rw [hpath, hsep]
  rw [take_left, drop_left, if_neg (fun h => h rfl)]
  split
  · next hnil =>
    -- the template ends here
    obtain rfl : rest = [] := hrest.symm.trans hnil
    have hraw : raw = [] := length_eq_zero_iff.mp (by rw [hlen, hcount]; rfl)
    rw [hraw]
    simp [encode_path, separated]
  · next c rest' hcons =>
    obtain rfl : rest = c :: rest' := hrest.symm.trans hcons
    obtain rfl : c = 0x25 := by
      have := head?_dropWhile_not (p := (· ≠ 0x25)) (l := template)
      rw [hcons] at this
      simpa using this
    obtain ⟨s, raw', rfl⟩ : ∃ s raw', raw = s :: raw' := by
      cases raw with
      | nil =>
        rw [hcount, count_cons_self] at hlen
        cases hlen
      | cons s raw' => exact ⟨s, raw', rfl⟩
    have hrawlen : raw'.length = rest'.count 0x25 := by
      rw [hcount, count_cons_self, length_cons] at hlen
      omega
    obtain ⟨suffix, hsuffix⟩ : ∃ v, rest'.takeWhile (· ≠ 0x2f) = v := ⟨_, rfl⟩
    obtain ⟨rest'', hrest''⟩ : ∃ r, rest'.dropWhile (· ≠ 0x2f) = r := ⟨_, rfl⟩
    have hsplit' : rest' = suffix ++ rest'' := by
      rw [← hsuffix, ← hrest'', takeWhile_append_dropWhile]
    have hslash : ∀ c ∈ suffix, c ≠ 0x2f := by
      intro c hc
      rw [← hsuffix] at hc
      simpa using mem_takeWhile_imp hc
    have hencode : encode_path (0x25 :: rest') ((s :: raw').map bus_label_escape) =
        bus_label_escape s ++ encode_path rest' (raw'.map bus_label_escape) := rfl
    rw [hencode]
    simp only [hsuffix, hrest'']
    have hsep' : separated (· == 0x2f) false (0x25 :: rest') =
        (!suffix.contains 0x25 && separated (· == 0x2f) true rest'') := by
      rw [hsplit', ← separated_since (by simpa using hslash)]
      rfl
    rw [hsep']
    by_cases hp : 0x25 ∈ suffix
    · -- the percent sign in the suffix would have to be in the path
      have hnone : 0x25 ∉ bus_label_escape s ++ encode_path rest' (raw'.map bus_label_escape) := by
        rw [← hencode]
        exact encode_path_label (escaped_labels (s :: raw'))
      obtain ⟨l, hl⟩ : ∃ l, (bus_label_escape s ++
          encode_path rest' (raw'.map bus_label_escape)).takeWhile (· ≠ 0x2f) = l := ⟨_, rfl⟩
      have hne : l.drop (l.length - suffix.length) ≠ suffix := by
        intro heq
        rw [← heq] at hp
        apply hnone
        exact (takeWhile_sublist _).subset (hl ▸ mem_of_mem_drop hp)
      simp only [hl]
      rw [if_pos (.inr hne)]
      simp [hp]
    · have hencode' : encode_path rest' (raw'.map bus_label_escape) =
          suffix ++ encode_path rest'' (raw'.map bus_label_escape) := by
        rw [hsplit', encode_path_append hp]
      have hhead : ∀ c, rest''.head? = some c → c = 0x2f := by
        intro c hc
        have := head?_dropWhile_not (p := (· ≠ 0x2f)) (l := rest')
        rw [hrest'', hc] at this
        simpa using this
      have hpathhead : ∀ c, (encode_path rest'' (raw'.map bus_label_escape)).head? = some c →
          decide (c ≠ 0x2f) = false := by
        intro c hc
        cases rest'' with
        | nil => cases hc
        | cons d rest'' =>
          obtain rfl := hhead d rfl
          obtain rfl : 0x2f = c := Option.some.inj hc
          decide
      have hlabel : ∀ c ∈ bus_label_escape s ++ suffix, decide (c ≠ 0x2f) = true := by
        intro c hc
        rw [decide_eq_true_eq]
        rcases mem_append.mp hc with hc | hc
        · exact ne_slash (bus_label_escape_label s c hc)
        · exact hslash c hc
      obtain ⟨htake, hdrop⟩ := takeWhile_stop hlabel hpathhead
      rw [append_assoc, ← hencode'] at htake hdrop
      simp only [htake, hdrop]
      have hlength : (bus_label_escape s ++ suffix).length - suffix.length =
          (bus_label_escape s).length := by
        rw [length_append, Nat.add_sub_cancel]
      have hmatch : ¬ ((bus_label_escape s ++ suffix).length < suffix.length ∨
          (bus_label_escape s ++ suffix).drop (bus_label_escape s).length ≠ suffix) := by
        simp
      rw [hlength, if_neg hmatch, unescape_escape (h0 s mem_cons_self)]
      have hlt : rest''.length < n := by
        rw [← hn, hsplit, hsplit']
        simp only [length_append, length_cons]
        omega
      have hcount' : raw'.length = rest''.count 0x25 := by
        rw [hrawlen, hsplit', count_append, count_eq_zero.mpr hp, Nat.zero_add]
      have hnext : separated (· == 0x2f) true rest'' = separated (· == 0x2f) false rest'' := by
        cases rest'' with
        | nil => rfl
        | cons d rest'' =>
          obtain rfl := hhead d rfl
          rfl
      rw [ih rest''.length hlt rest'' raw' (fun s hs => h0 s (mem_cons_of_mem _ hs)) hcount'
        _ rfl, ← hnext]
      simp [hp]

/-! ## Section 5: Valid paths -/

/-- What is escaped is one of these. -/
def IsLabel (l : List UInt8) : Prop := (∀ c ∈ l, is_label_char c = true) ∧ l ≠ []

/-- The labels for a template. -/
def FitsTemplate (template : List UInt8) (labels : List (List UInt8)) : Prop :=
  labels.length = template.count 0x25 ∧ ∀ l ∈ labels, IsLabel l

section fits
variable {template : List UInt8} {labels labels' : List (List UInt8)}

theorem FitsTemplate.cons (h : FitsTemplate (0x25 :: template) labels) :
    ∃ l rest, labels = l :: rest ∧ IsLabel l ∧ FitsTemplate template rest := by
  obtain ⟨hlen, hall⟩ := h
  rw [count_cons_self] at hlen
  cases labels with
  | nil => cases hlen
  | cons l rest =>
    exact ⟨l, rest, rfl, hall l mem_cons_self, Nat.succ.inj hlen,
      fun l hl => hall l (mem_cons_of_mem _ hl)⟩

theorem FitsTemplate.skip {c : UInt8} (h : FitsTemplate (c :: template) labels) (hc : c ≠ 0x25) :
    FitsTemplate template labels := by
  obtain ⟨hlen, hall⟩ := h
  rw [count_cons_of_ne hc] at hlen
  exact ⟨hlen, hall⟩

theorem escaped_fits_template {raw : List (List UInt8)} (hlen : raw.length = template.count 0x25) :
    FitsTemplate template (raw.map bus_label_escape) := by
  refine ⟨by rw [length_map, hlen], ?_⟩
  intro l hl
  obtain ⟨s, _, rfl⟩ := mem_map.mp hl
  exact ⟨bus_label_escape_label s, bus_label_escape_ne_nil s⟩

/-- A label is as good as any other for the loop of `object_path_is_valid`. -/
theorem object_path_loop_label {l : List UInt8} (h : IsLabel l) (slash : Bool) (q : List UInt8) :
    object_path_loop slash (l ++ q) = object_path_loop false q := by
  obtain ⟨h, hne⟩ := h
  induction l generalizing slash with
  | nil => exact absurd rfl hne
  | cons c l ih =>
    have hc := h c mem_cons_self
    rw [cons_append, object_path_loop, if_neg (ne_slash hc)]
    unfold is_label_char at hc
    rw [hc]
    cases l with
    | nil => rfl
    | cons d l => exact ih false (fun c hc => h c (mem_cons_of_mem _ hc)) (by simp)

theorem object_path_loop_encode (h : FitsTemplate template labels) (slash : Bool) :
    object_path_loop slash (encode_path template labels) =
      object_path_loop slash (blank_path template) := by
  induction template generalizing labels slash with
  | nil => rfl
  | cons c template ih =>
    by_cases hc : c = 0x25
    · subst hc
      obtain ⟨l, rest, rfl, hl, hrest⟩ := h.cons
      have hblank : IsLabel [0x5f] :=
        ⟨forall_mem_singleton.mpr (by decide), cons_ne_nil _ _⟩
      show object_path_loop slash (l ++ encode_path template rest) =
        object_path_loop slash ([0x5f] ++ blank_path template)
      rw [object_path_loop_label hl]
      exact ih hrest false
    · have htrue := ih (h.skip hc) true
      have hfalse := ih (h.skip hc) false
      unfold encode_path blank_path
      rw [map_cons, if_neg hc, if_neg hc]
      unfold object_path_loop
      rw [htrue, hfalse]
      rfl

theorem object_path_is_valid_cons {c : UInt8} {q : List UInt8} :
    object_path_is_valid (c :: q) = true ↔ c = 0x2f ∧
      (q = [] ∨ object_path_loop true q = true ∧ (c :: q).length ≤ BUS_PATH_SIZE_MAX) := by
  unfold object_path_is_valid
  split
  · next heq =>
    obtain ⟨rfl, rfl⟩ := cons.inj heq
    simp
  · next q' hq heq =>
    obtain ⟨rfl, rfl⟩ := cons.inj heq
    have hne : q ≠ [] := fun h => hq (by rw [h])
    simp [hne]
  · next h1 h2 =>
    constructor
    · intro h
      cases h
    · rintro ⟨rfl, _⟩
      exact absurd rfl (h2 q)

/-- The path is as valid as the template is with other labels, unless it is
    too long. -/
theorem object_path_encode (h : FitsTemplate template labels)
    (hvalid : object_path_is_valid (blank_path template) = true)
    (hsize : (encode_path template labels).length ≤ BUS_PATH_SIZE_MAX) :
    object_path_is_valid (encode_path template labels) = true := by
  cases template with
  | nil => exact hvalid
  | cons c template =>
    by_cases hc : c = 0x25
    · -- such a path does not start with a slash
      subst hc
      cases hvalid
    · have hloop := object_path_loop_encode (h.skip hc) true
      rw [encode_path, if_neg hc] at hsize ⊢
      unfold blank_path at hvalid hloop
      rw [map_cons, if_neg hc, object_path_is_valid_cons] at hvalid
      rw [object_path_is_valid_cons]
      obtain ⟨hslash, hnil | ⟨hvalid, _⟩⟩ := hvalid
      · obtain rfl := map_eq_nil_iff.mp hnil
        exact ⟨hslash, .inl rfl⟩
      · exact ⟨hslash, .inr ⟨hloop.trans hvalid, hsize⟩⟩

/-! ## Section 6: Distinct paths -/

/-- Labels and a `sep` end where the labels do; `l` and `l'` are what there has
    been of a label, if there was a percent sign. -/
theorem encode_path_inj_since (template : List UInt8) :
    (∀ labels labels', FitsTemplate template labels → FitsTemplate template labels' →
      separated (!is_label_char ·) false template = true →
      encode_path template labels = encode_path template labels' → labels = labels') ∧
    (∀ l l' labels labels', FitsTemplate template labels → FitsTemplate template labels' →
      (∀ c ∈ l, is_label_char c = true) → (∀ c ∈ l', is_label_char c = true) →
      separated (!is_label_char ·) true template = true →
      l ++ encode_path template labels = l' ++ encode_path template labels' →
      l = l' ∧ labels = labels') := by
  induction template with
  | nil =>
    have hnil : ∀ labels, FitsTemplate [] labels → labels = [] :=
      fun labels h => length_eq_zero_iff.mp h.1
    constructor
    · intro labels labels' h h' _ _
      rw [hnil labels h, hnil labels' h']
    · intro l l' labels labels' h h' _ _ _ heq
      simp only [encode_path, append_nil] at heq
      exact ⟨heq, by rw [hnil labels h, hnil labels' h']⟩
  | cons c template ih =>
    obtain ⟨ih, ihsince⟩ := ih
    constructor
    · intro labels labels' h h' hsep heq
      by_cases hc : c = 0x25
      · subst hc
        obtain ⟨l, rest, rfl, hl, hrest⟩ := h.cons
        obtain ⟨l', rest', rfl, hl', hrest'⟩ := h'.cons
        obtain ⟨rfl, rfl⟩ := ihsince l l' rest rest' hrest hrest' hl.1 hl'.1 hsep heq
        rfl
      · rw [encode_path, encode_path, if_neg hc, if_neg hc] at heq
        rw [separated, if_neg hc] at hsep
        exact ih labels labels' (h.skip hc) (h'.skip hc) hsep (cons.inj heq).2
    · intro l l' labels labels' h h' hl hl' hsep heq
      by_cases hc : c = 0x25
      · subst hc
        cases hsep
      · rw [encode_path, encode_path, if_neg hc, if_neg hc] at heq
        rw [separated, if_neg hc] at hsep
        by_cases hchar : is_label_char c = true
        · -- it could be of the label as well, but then it is of both
          rw [hchar] at hsep
          rw [append_cons, append_cons l'] at heq
          have hchars : ∀ l : List UInt8, (∀ c ∈ l, is_label_char c = true) →
              ∀ d ∈ l ++ [c], is_label_char d = true := by
            intro l hl d hd
            rcases mem_append.mp hd with hd | hd
            · exact hl d hd
            · rwa [mem_singleton.mp hd]
          obtain ⟨hll, hlabels⟩ := ihsince _ _ labels labels' (h.skip hc) (h'.skip hc)
            (hchars l hl) (hchars l' hl') hsep heq
          exact ⟨append_cancel_right hll, hlabels⟩
        · -- it ends the label
          have hstop : ∀ X : List UInt8, ∀ d, (c :: X).head? = some d → is_label_char d = false := by
            intro X d hd
            cases hd
            simpa using hchar
          have h1 := (takeWhile_stop hl (hstop (encode_path template labels))).1
          have h2 := (takeWhile_stop hl' (hstop (encode_path template labels'))).1
          rw [heq, h2] at h1
          subst h1
          rw [Bool.not_eq_true] at hchar
          rw [hchar] at hsep
          have htail := append_cancel_left heq
          exact ⟨rfl, ih labels labels' (h.skip hc) (h'.skip hc) hsep (cons.inj htail).2⟩

theorem encode_path_inj (h : FitsTemplate template labels) (h' : FitsTemplate template labels')
    (hsep : separated (!is_label_char ·) false template = true)
    (heq : encode_path template labels = encode_path template labels') : labels = labels' :=
  (encode_path_inj_since template).1 labels labels' h h' hsep heq

end fits

/-! ## Section 7: Encoding and decoding -/

variable {raw : List (List UInt8)} {template : List UInt8}

theorem encode_labels_map (hlen : raw.length = template.count 0x25) :
    encode_labels template (raw.map some) = .ok (raw.map bus_label_escape) := by
  induction template generalizing raw with
  | nil =>
    have hraw : raw = [] := length_eq_zero_iff.mp hlen
    rw [hraw]
    rfl
  | cons c template ih =>
    unfold encode_labels
    by_cases hc : c = 0x25
    · subst hc
      rw [count_cons_self] at hlen
      cases raw with
      | nil => cases hlen
      | cons s raw =>
        have hrest := ih (Nat.succ.inj hlen)
        simp only [map_cons, hrest]
        rfl
    · rw [count_cons_of_ne hc] at hlen
      rw [if_neg hc, ih hlen]

/-- **Encoding** gives the template with the labels, for as many strings as it
    has percent signs. -/
theorem encode_many_ok (hlen : raw.length = template.count 0x25) :
    sd_bus_path_encode_many template (raw.map some) =
      .ok (encode_path template (raw.map bus_label_escape)) := by
  unfold sd_bus_path_encode_many
  rw [encode_labels_map hlen]
  rfl

/-- **Round trip**: the path has the strings if there is a slash between any
    two percent signs of the template, and does not match it otherwise; it is
    valid if the template is with other labels, unless it is too long; and
    other strings give another path, if there is something else than a label
    between the percent signs. -/
theorem path_encode_decode (template : List UInt8) (list : List (List UInt8))
    (hlen : list.length = template.count 0x25) (h0 : ∀ s ∈ list, 0 ∉ s) :
    ∃ path, sd_bus_path_encode_many template (list.map some) = .ok path ∧
      sd_bus_path_decode_many path template =
        (if separated (· == 0x2f) false template then some list else none) ∧
      (object_path_is_valid (blank_path template) → path.length ≤ BUS_PATH_SIZE_MAX →
        object_path_is_valid path) ∧
      (separated (!is_label_char ·) false template → ∀ list' : List (List UInt8),
        list'.length = template.count 0x25 →
        sd_bus_path_encode_many template (list'.map some) = .ok path → list' = list) := by
  refine ⟨_, encode_many_ok hlen, ?_, ?_, ?_⟩
  · exact decode_loop_encode template list h0 hlen []
  · exact object_path_encode (escaped_fits_template hlen)
  · intro hsep list' hlen' heq
    rw [encode_many_ok hlen'] at heq
    have hlabels := encode_path_inj (escaped_fits_template hlen') (escaped_fits_template hlen) hsep
      (Outcome.ok.inj heq)
    exact map_injective_iff.mpr (fun _ _ h => bus_label_escape_inj h) hlabels

theorem path_encode_decode_example :
    ∃ path, sd_bus_path_encode_many (ascii "/a/%/b_%") ([ascii "1:x", []].map some) = .ok path ∧
      sd_bus_path_decode_many path (ascii "/a/%/b_%") = some [ascii "1:x", []] := by
  obtain ⟨path, hpath, hdecode, _⟩ :=
    path_encode_decode (ascii "/a/%/b_%") [ascii "1:x", []] (by decide) (by decide)
  refine ⟨path, hpath, hdecode.trans ?_⟩
  decide

/-- A label of letters is not changed. -/
theorem encode_alpha {s : List UInt8} (h : ∀ c ∈ s, ascii_isalpha c = true) (hne : s ≠ []) :
    sd_bus_path_encode_many (ascii "/%") [some s] = .ok (0x2f :: s) := by
  have hpath : sd_bus_path_encode_many (ascii "/%") ([s].map some) = _ := encode_many_ok rfl
  have hlabel : bus_label_escape s = s := by
    unfold bus_label_escape
    rw [if_neg hne, label_escape_loop_alpha true h]
  rw [map_singleton, map_singleton, hlabel] at hpath
  rw [hpath]
  show Outcome.ok (0x2f :: (s ++ [])) = _
  rw [append_nil]

/-- Two percent signs between the same slashes are encoded, but not decoded;
    and a path can be too long. -/
theorem path_not_decoded :
    (∃ path, sd_bus_path_encode_many (ascii "/%-%") [some (ascii "a"), some (ascii "b")] = .ok path ∧
      sd_bus_path_decode_many path (ascii "/%-%") = none) ∧
    separated (!is_label_char ·) false (ascii "/%-%") = true ∧
    ∃ path, sd_bus_path_encode_many (ascii "/%") [some (replicate 65536 0x61)] = .ok path ∧
      object_path_is_valid (blank_path (ascii "/%")) = true ∧ object_path_is_valid path = false := by
  have hpercent : sd_bus_path_encode_many (ascii "/%-%") ([ascii "a", ascii "b"].map some) = _ :=
    encode_many_ok (by decide)
  obtain ⟨s, hs⟩ : ∃ s, s = replicate 65536 (0x61 : UInt8) := ⟨_, rfl⟩
  have hlength : s.length = 65536 := by
    rw [hs, length_replicate]
  have halpha : ∀ c ∈ s, ascii_isalpha c = true := by
    intro c hc
    rw [hs] at hc
    rw [eq_of_mem_replicate hc]
    decide
  have hne : s ≠ [] := by
    rintro rfl
    cases hlength
  rw [← hs]
  refine ⟨⟨_, hpercent, ?_⟩, by decide, ⟨_, encode_alpha halpha hne, by decide, ?_⟩⟩
  · exact decode_loop_encode (ascii "/%-%") [ascii "a", ascii "b"] (by decide) (by decide) []
  · rw [← Bool.not_eq_true, object_path_is_valid_cons]
    rintro ⟨_, hnil | ⟨_, hsize⟩⟩
    · exact hne hnil
    · rw [length_cons, hlength] at hsize
      exact absurd hsize (by decide)

end SdCompat.Bus
