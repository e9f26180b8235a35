import SdCompat.SdBus.MatchGrammar
import SdCompat.SdBus.Type

/-! # Match rules are parsed

    Every text of a rule is parsed, when there is memory for it; and what is
    parsed comes sorted, each type once.

    * `render`: the components in order, with every value in quotes;
    * `bus_match_parse_rules`: what `bus_match_parse` makes of any text.
-/

namespace SdCompat.Match

open Call List Nat

/-! ## Section 1: Every rule is parsed -/

section complete
variable {h : Heap} {quoted : Bool} {value components : Option Nat} {text r v s rest : List UInt8}
  {cs : List ParsedComponent} {c : BusMatchComponent} {l : List BusMatchComponent}

theorem malloc_enough (he : h.Enough) :
    Ensures malloc h (fun _ h' => h'.Enough) (fun _ => False) := by
  unfold malloc Ensures
  dsimp only
  rw [if_pos (he _)]
  exact he

theorem greedy_realloc_enough (he : h.Enough) :
    Ensures (greedy_realloc value) h (fun _ h' => h'.Enough) (fun _ => False) := by
  cases value with
  | none => exact malloc_enough he
  | some p =>
    unfold greedy_realloc Ensures
    dsimp only
    rw [if_pos (he _)]
    exact he

/-- Where there is no error nothing is cleaned up. -/
theorem cleanup_enough {α : Type} {x : Call Heap α} {undo : Call Heap PUnit}
    {Q : α → Heap → Prop} (hx : Ensures x h Q fun _ => False) :
    Ensures (cleanup x undo) h Q fun _ => False :=
  ensures_cleanup hx fun _ hf => hf.elim

theorem value_loop_cons {u : UInt8} (hc : u ≠ 0x5c) (hend : u ≠ value_end quoted) :
    value_loop quoted false value r (u :: s) = (do
      let value ← cleanup (greedy_realloc value) (free value)
      value_loop quoted false (some value) (r ++ [u]) s) := by
  rw [value_loop, if_neg (by simpa using hc), if_neg (by simpa using hend)]

theorem value_loop_escaped {u : UInt8} :
    value_loop quoted false value r (0x5c :: u :: s) = (do
      let value ← cleanup (greedy_realloc value) (free value)
      value_loop quoted false (some value) (r ++ [u]) s) := by
  rw [value_loop, if_pos (by simp), value_loop, if_neg (by simp), if_neg (by simp)]

variable {t : List UInt8}

/-- The bytes of a value are read as they are written. -/
theorem value_loop_written {Q : Option Nat × List UInt8 × List UInt8 → Heap → Prop}
    (hw : Written quoted v t) (he : h.Enough)
    (hrest : ∀ value' h', h'.Enough → Ensures (value_loop quoted false value' (r ++ v) s) h' Q fun _ => False) :
    Ensures (value_loop quoted false value r (t ++ s)) h Q fun _ => False := by
  induction hw generalizing value r h with
  | nil =>
    rw [append_nil] at hrest
    exact hrest value h he
  | @plain u v t hc hend _ ih =>
    rw [cons_append, value_loop_cons hc hend]
    apply ensures_bind (cleanup_enough (greedy_realloc_enough he))
    intro p h' he'
    apply ih he'
    rwa [append_assoc]
  | @escaped u v t _ ih =>
    apply ensures_bind (cleanup_enough (greedy_realloc_enough he))
    intro p h' he'
    apply ih he'
    rwa [append_assoc]

/-- The loop over a value finds it. -/
theorem value_loop_finds (hr : Reads quoted v s rest) (he : h.Enough) :
    Ensures (value_loop quoted false value [] s) h
      (fun x h' => h'.Enough ∧ x.2.1 = v ∧ x.2.2 = rest) (fun _ => False) := by
  cases hr with
  | @quoted v t rest hw =>
    apply value_loop_written hw he
    intro value' h' he'
    exact ⟨he', rfl, rfl⟩
  | @unquoted v t rest hw hrest =>
    apply value_loop_written hw he
    intro value' h' he'
    cases rest with
    | nil => exact ⟨he', rfl, rfl⟩
    | cons d rest =>
      obtain rfl : d = 0x2c := by simpa using hrest
      exact ⟨he', rfl, rfl⟩
  | @backslash v t hw =>
    apply value_loop_written hw he
    intro value' h' he'
    exact ⟨he', rfl, rfl⟩

/-- A text of a value is what the loop over it reads. -/
theorem reads_of_text (ht : ValueText v t) (hrest : rest = [] ∨ rest.head? = some 0x2c) :
    Reads (decide ((t ++ rest).head? = some 0x27)) v
      (if decide ((t ++ rest).head? = some 0x27) then (t ++ rest).tail else t ++ rest) rest := by
  cases ht with
  | @quoted t hw =>
    have hread : Reads true v (t ++ 0x27 :: rest) rest := .quoted hw
    simpa using hread
  | @unquoted t hw hhead =>
    have hnot : (t ++ rest).head? ≠ some 0x27 := by
      cases t with
      | nil =>
        rcases hrest with rfl | hrest
        · nofun
        · rw [nil_append, hrest]
          decide
      | cons c t => exact hhead
    rw [decide_eq_false hnot]
    exact .unquoted hw hrest

/-- A component is made of its value. -/
theorem make_component_enough {t : BusMatchNodeType} {p : Nat} (hvalid : c.Valid) (ht : c.type = t)
    (htext : c.text = r) (he : h.Enough) :
    Ensures (make_component t p r) h (fun x h' => h'.Enough ∧ x.component = c)
      (fun _ => False) := by
  obtain ⟨type, u, str⟩ := c
  obtain rfl : type = t := ht
  unfold make_component
  unfold BusMatchComponent.Valid at hvalid
  unfold BusMatchComponent.text at htext
  split
  · next ht =>
    obtain ⟨hsome, hstr⟩ : (bus_message_type_to_string u).isSome ∧ str = [] := by
      simpa [ht] using hvalid
    subst hstr
    obtain ⟨name, hname⟩ := Option.isSome_iff_exists.mp hsome
    have hr : bus_message_type_from_string r = .ok u := by
      rw [bus_message_type_iff, ← htext]
      simp [ht, hname]
    have hlift : Ensures (lift (bus_message_type_from_string r)) h
        (fun x h' => h'.Enough ∧ x = u) (fun _ => False) := by
      rw [hr]
      exact ⟨he, rfl⟩
    apply ensures_bind (cleanup_enough hlift)
    rintro _ h' ⟨he', rfl⟩
    exact ⟨he', rfl⟩
  · next ht =>
    have hu : u = 0 := by simpa [ht] using hvalid
    have hr : str = r := by simpa [ht] using htext
    subst hu hr
    exact ⟨he, rfl⟩

variable {p : List UInt8}

variable {n : Nat}

/-- A component is parsed from its text. -/
theorem parse_component_finds (hvalid : c.Valid)
    (hr : Reads (decide (p.head? = some 0x27)) c.text (if decide (p.head? = some 0x27) then p.tail else p) rest)
    (he : h.Enough) : Ensures (parse_component (key_text n c.type ++ p)) h
      (fun x h' => h'.Enough ∧ x.1.component = c ∧ x.2 = rest) (fun _ => False) := by
  have hkey : read_key (key_text n c.type ++ p) = .ok (c.type, p) := read_key_iff.mpr ⟨n, rfl⟩
  unfold parse_component
  rw [hkey]
  unfold Ensures
  apply ensures_bind (value_loop_finds hr he)
  rintro ⟨value, r, rest'⟩ h1 ⟨he1, hval, rfl⟩
  have hempty : Ensures (value_or_empty value) h1 (fun _ h' => h'.Enough) (fun _ => False) := by
    cases value with
    | none => exact malloc_enough he1
    | some p => exact he1
  apply ensures_bind hempty
  intro p' h2 he2
  apply ensures_bind (make_component_enough hvalid rfl hval.symm he2)
  rintro x h3 ⟨he3, hx⟩
  exact ensures_pure ⟨he3, hx, rfl⟩

/-- And one that ends in a backslash. -/
theorem reads_of_backslash (hw : Written false v t) (hhead : t.head? ≠ some 0x27) :
    Reads (decide ((t ++ [0x5c]).head? = some 0x27)) v
      (if decide ((t ++ [0x5c]).head? = some 0x27) then (t ++ [0x5c]).tail else t ++ [0x5c]) [] := by
  have hnot : (t ++ [0x5c]).head? ≠ some 0x27 := by
    cases t with
    | nil => decide
    | cons c t => exact hhead
  rw [decide_eq_false hnot]
  exact .backslash hw

variable {fuel : Nat}

/-- A round of the loop, with what is behind the component. -/
theorem parse_loop_round {Q : Option Nat × List ParsedComponent → Heap → Prop} (hvalid : c.Valid)
    (hr : Reads (decide (p.head? = some 0x27)) c.text (if decide (p.head? = some 0x27) then p.tail else p) rest)
    (he : h.Enough)
    (hrest : ∀ (x : ParsedComponent) (a : Nat) (h' : Heap), x.component = c → h'.Enough → rest = [] ∧ Q (some a, cs ++ [x]) h' ∨ ∃ t, rest = 0x2c :: t ∧ Ensures (parse_loop fuel (some a) (cs ++ [x]) t) h' Q fun _ => False) :
    Ensures (parse_loop (fuel + 1) components cs (key_text n c.type ++ p)) h Q fun _ => False := by
  obtain ⟨b, t, hb⟩ : ∃ b t, key_text n c.type ++ p = b :: t := by
    apply exists_cons_of_ne_nil
    unfold key_text
    simp
  have hfind : Ensures (parse_component (key_text n c.type ++ p)) h _ _ :=
    parse_component_finds hvalid hr he
  rw [hb] at hfind ⊢
  apply ensures_bind (cleanup_enough hfind)
  rintro ⟨x, rest'⟩ h1 ⟨he1, hx, hrest'⟩
  apply ensures_bind (cleanup_enough (greedy_realloc_enough he1))
  intro a h2 he2
  dsimp only at hrest'
  rw [hrest']
  rcases hrest x a h2 hx he2 with ⟨rfl, hq⟩ | ⟨t, rfl, ht⟩
  · exact hq
  · dsimp only
    exact ht

theorem one_round {t : BusMatchNodeType} (hfuel : (key_text n t ++ p).length ≤ fuel) :
    ∃ m, fuel = m + 1 ∧ p.length ≤ m := by
  refine ⟨fuel - 1, ?_, ?_⟩
  · simp only [key_text, length_append, length_singleton] at hfuel
    omega
  · simp only [key_text, length_append, length_singleton] at hfuel
    omega

/-- The loop finds the components of a rule. -/
theorem parse_loop_finds (hl : RuleText l text) (hfuel : text.length ≤ fuel) (he : h.Enough) :
    Ensures (parse_loop fuel components cs text) h
      (fun x _ => x.2.map (·.component) = cs.map (·.component) ++ l) (fun _ => False) := by
  induction hl generalizing fuel components cs h with
  | nil =>
    cases fuel with
    | zero => exact (append_nil _).symm
    | succ fuel => exact (append_nil _).symm
  | @last c n t hvalid ht =>
    obtain ⟨fuel, rfl, -⟩ := one_round hfuel
    have hreads : Reads _ c.text _ [] := reads_of_text ht (.inl rfl)
    rw [append_nil] at hreads
    apply parse_loop_round hvalid hreads he
    rintro x a h' rfl _
    exact .inl ⟨rfl, by simp⟩
  | @backslash c n t hvalid ht hhead =>
    obtain ⟨fuel, rfl, -⟩ := one_round hfuel
    apply parse_loop_round hvalid (reads_of_backslash ht hhead) he
    rintro x a h' rfl _
    exact .inl ⟨rfl, by simp⟩
  | @more c n t s l hvalid ht _ ih =>
    obtain ⟨fuel, rfl, hshort⟩ := one_round hfuel
    apply parse_loop_round hvalid (reads_of_text ht (.inr rfl)) he
    rintro x a h' rfl he'
    have hlen : s.length ≤ fuel := by
      rw [length_append, length_cons] at hshort
      omega
    refine .inr ⟨s, rfl, ensures_mono (ih hlen he') ?_ fun _ h => h⟩
    intro y _ hy
    rw [hy]
    simp

end complete

/-! ## Section 2: Sorted, each type once -/

theorem BusMatchNodeType.num_injective {t t' : BusMatchNodeType} (h : t.num = t'.num) : t = t' := by
  cases t <;> cases t' <;> simp only [num] at h <;>
    first
      | rfl
      | (congr 1; omega)

section sorted
variable {l : List BusMatchComponent} {cs : List ParsedComponent}

/-- These are the components of a rule, sorted by their types. -/
structure SortedFrom (l : List BusMatchComponent) (cs : List ParsedComponent) : Prop where
  perm : (cs.map (·.component)).Perm l
  sorted : cs.Pairwise fun a b => a.component.type.num < b.component.type.num

/-- In a sorted list a type that is there twice is next to itself. -/
theorem duplicates_iff (h : cs.Pairwise fun a b => a.component.type.num ≤ b.component.type.num) :
    duplicates cs = false ↔ cs.Pairwise fun a b => a.component.type.num < b.component.type.num := by
  induction cs with
  | nil => simp [duplicates]
  | cons a cs ih =>
    cases cs with
    | nil => simp [duplicates]
    | cons b cs =>
      obtain ⟨ha, hcs⟩ := pairwise_cons.mp h
      have hb := (pairwise_cons.mp hcs).1
      rw [duplicates, Bool.or_eq_false_iff, ih hcs, decide_eq_false_iff_not]
      constructor
      · rintro ⟨hne, hlt⟩
        have hab : a.component.type.num < b.component.type.num :=
          lt_of_le_of_ne (ha b mem_cons_self) fun h => hne (BusMatchNodeType.num_injective h)
        refine pairwise_cons.mpr ⟨fun x hx => ?_, hlt⟩
        rcases mem_cons.mp hx with rfl | hx
        · exact hab
        · exact lt_of_lt_of_le hab (hb x hx)
      · intro hall
        obtain ⟨hless, hlt⟩ := pairwise_cons.mp hall
        refine ⟨fun heq => ?_, hlt⟩
        have hab := hless b mem_cons_self
        rw [heq] at hab
        exact lt_irrefl _ hab

/-- Sorting leaves no type before a smaller one. -/
theorem pairwise_sorted (cs : List ParsedComponent) : (cs.mergeSort match_component_le).Pairwise
      fun a b => a.component.type.num ≤ b.component.type.num := by
  have htrans : ∀ a b c, match_component_le a b → match_component_le b c →
      match_component_le a c := by
    simp only [match_component_le, decide_eq_true_eq] at *
    omega
  have htotal : ∀ a b, match_component_le a b || match_component_le b a := by
    simp only [match_component_le, Bool.or_eq_true, decide_eq_true_eq]
    omega
  refine (pairwise_mergeSort htrans htotal cs).imp fun h => ?_
  simpa [match_component_le] using h

/-- The components of a rule, after sorting, are without a type twice when the
    rule is. -/
theorem duplicates_mergeSort (h : cs.map (·.component) = l) :
    duplicates (cs.mergeSort match_component_le) = false ↔ (l.map (·.type)).Nodup := by
  have hsorted := pairwise_sorted cs
  have hperm : ((cs.mergeSort match_component_le).map (·.component.type)).Perm (l.map (·.type)) := by
    rw [← h, map_map]
    exact (mergeSort_perm cs match_component_le).map _
  rw [duplicates_iff hsorted, ← hperm.nodup_iff, Nodup, pairwise_map]
  constructor
  · intro hlt
    refine hlt.imp fun h heq => ?_
    rw [heq] at h
    exact lt_irrefl _ h
  · intro hne
    refine (hsorted.and hne).imp fun h => ?_
    exact lt_of_le_of_ne h.1 fun heq => h.2 (BusMatchNodeType.num_injective heq)

theorem sorted_from (h : cs.map (·.component) = l)
    (hdup : duplicates (cs.mergeSort match_component_le) = false) :
    SortedFrom l (cs.mergeSort match_component_le) where
  perm := by
    rw [← h]
    exact (mergeSort_perm cs match_component_le).map _
  sorted := (duplicates_iff (pairwise_sorted cs)).mp hdup

end sorted

/-! ## Section 3: The parser -/

/-- The text is parsed as this rule: its components are returned sorted, and
    what has been allocated is the array and their strings. -/
def Accepts (text : List UInt8) (l : List BusMatchComponent) (h : Heap) : Prop :=
  ∃ components cs h', bus_match_parse text h = (.ok (components, cs), h') ∧ SortedFrom l cs ∧
    h.memory.Owns h'.memory (value_blocks cs ++ components.toList)

/-- The text is refused, and nothing is left of what has been allocated. -/
def Rejects (text : List UInt8) (h : Heap) : Prop :=
  ∃ e h', bus_match_parse text h = (.err e, h') ∧ h.memory.Owns h'.memory []

section parser
variable {h : Heap} {text : List UInt8} {l l' : List BusMatchComponent}

/-- Every text is a rule that has each type once, or is refused. -/
theorem bus_match_parse_cases (text : List UInt8) (h : Heap) :
    (∃ l, RuleText l text ∧ (l.map (·.type)).Nodup ∧ Accepts text l h) ∨ Rejects text h := by
  have hnone : h.memory.Owns h.memory
      (value_blocks [] ++ ((none : Option Nat).toList ++ [])) := Memory.Owns.refl _
  have hloop := parse_loop_reads (le_refl text.length) hnone
  unfold Accepts Rejects
  unfold Ensures at hloop
  match hrun : parse_loop text.length none [] text h with
  | (.ok (components, cs), h') =>
    rw [hrun] at hloop
    obtain ⟨ho, l, hl, hcs⟩ := hloop
    rw [append_nil] at ho
    have hsort : h.memory.Owns h'.memory
        (value_blocks (cs.mergeSort match_component_le) ++ (components.toList ++ [])) := by
      rw [append_nil]
      exact ho.perm (((mergeSort_perm cs _).symm.filterMap _).append_right _)
    have hparse : bus_match_parse text h =
        (if duplicates (cs.mergeSort match_component_le) then
          cleanup (fail .EINVAL)
            (bus_match_parse_free components (cs.mergeSort match_component_le))
        else pure (components, cs.mergeSort match_component_le)) h' := by
      unfold bus_match_parse
      rw [bind_run_ok hrun]
    rw [hparse]
    by_cases hdup : duplicates (cs.mergeSort match_component_le) = true
    · right
      rw [if_pos hdup]
      apply Ensures.exists_err
      apply cleanup_components_owns
      exact ensures_fail hsort
    · left
      have hfalse := Bool.eq_false_iff.mpr hdup
      rw [if_neg hdup]
      refine ⟨l, hl, (duplicates_mergeSort hcs).mp hfalse, _, _, _, rfl, sorted_from hcs hfalse, ?_⟩
      rwa [append_nil] at hsort
  | (.err e, h') =>
    rw [hrun] at hloop
    right
    refine ⟨e, h', ?_, hloop⟩
    unfold bus_match_parse
    rw [bind_run, hrun]
  | (.abort, h') =>
    rw [hrun] at hloop
    exact hloop.elim

/-- A text has the components of one rule. -/
theorem RuleText.unique (hl : RuleText l text) (hl' : RuleText l' text) : l = l' := by
  have he : Heap.Enough ⟨Memory.empty, 0, fun _ => true⟩ := fun _ => rfl
  have hone : Ensures (parse_loop text.length none [] text) _ _ _ :=
    parse_loop_finds hl (le_refl _) he
  obtain ⟨x, h', hx, hxl⟩ := Ensures.exists_ok hone
  have htwo : Ensures (parse_loop text.length none [] text) _ _ _ :=
    parse_loop_finds hl' (le_refl _) he
  unfold Ensures at htwo
  rw [hx] at htwo
  exact hxl.symm.trans htwo

/-- Where there is memory a rule that has each type once is not refused. -/
theorem Accepts.of_enough (hl : RuleText l text) (hnodup : (l.map (·.type)).Nodup) (he : h.Enough) :
    Accepts text l h := by
  rcases bus_match_parse_cases text h with ⟨l', hl', -, haccept⟩ | ⟨e, h', herr, -⟩
  · rwa [hl.unique hl']
  · have hfind : Ensures (parse_loop text.length none [] text) h _ _ :=
      parse_loop_finds hl (le_refl _) he
    obtain ⟨⟨components, cs⟩, h1, hrun, hcs⟩ := Ensures.exists_ok hfind
    have hdup := (duplicates_mergeSort hcs).mpr hnodup
    unfold bus_match_parse at herr
    rw [bind_run_ok hrun] at herr
    dsimp only at herr
    rw [hdup] at herr
    cases herr

/-- A rule with a type twice is refused. -/
theorem Rejects.of_twice (hl : RuleText l text) (htwice : ¬ (l.map (·.type)).Nodup) :
    Rejects text h := by
  rcases bus_match_parse_cases text h with ⟨l', hl', hnodup, -⟩ | hreject
  · rw [hl.unique hl'] at htwice
    exact absurd hnodup htwice
  · exact hreject

end parser

/-! ## Section 4: Rules in quotes -/

/-- The backslash rule, in quotes. -/
def render_value (v : List UInt8) : List UInt8 :=
  v.flatMap fun c => if c = 0x27 || c = 0x5c then [0x5c, c] else [c]

/-- The components in order, as pairs of a key and a value in quotes. -/
def render : List BusMatchComponent → List UInt8
  | [] => []
  | [c] => key_text 0 c.type ++ 0x27 :: (render_value c.text ++ [0x27])
  | c :: cs => key_text 0 c.type ++ (0x27 :: (render_value c.text ++ [0x27]) ++ 0x2c :: render cs)

theorem written_render_value (v : List UInt8) : Written true v (render_value v) := by
  induction v with
  | nil => exact .nil
  | cons c v ih =>
    unfold render_value
    rw [flatMap_cons]
    split
    · exact .escaped ih
    · next hc =>
      rw [Bool.or_eq_true, decide_eq_true_eq, decide_eq_true_eq, not_or] at hc
      exact .plain hc.2 hc.1 ih

theorem rule_render {l : List BusMatchComponent} (h : ∀ c ∈ l, c.Valid) : RuleText l (render l) := by
  induction l with
  | nil => exact .nil
  | cons c l ih =>
    obtain ⟨hc, hl⟩ := forall_mem_cons.mp h
    have htext : ValueText c.text (0x27 :: (render_value c.text ++ [0x27])) :=
      .quoted (written_render_value _)
    cases l with
    | nil => exact .last hc htext
    | cons d l => exact .more hc htext (ih hl)

/-- Components with different types are parsed back, sorted, from their pairs of
    a key and a value in quotes, and so is every other text of such a rule. What
    is no rule, or has a type twice, is refused, and then nothing stays
    allocated. -/
theorem bus_match_parse_rules (text : List UInt8) (h : Heap) :
    (∀ l : List BusMatchComponent, (∀ c ∈ l, c.Valid) → (l.map (·.type)).Nodup → h.Enough →
      Accepts (render l) l h) ∧
    (∀ l, RuleText l text → (l.map (·.type)).Nodup → Accepts text l h ∨ ¬ h.Enough ∧ Rejects text h) ∧
    (∀ l, RuleText l text → ¬ (l.map (·.type)).Nodup → Rejects text h) ∧
    ((∀ l, ¬ RuleText l text) → Rejects text h) := by
  refine ⟨?_, ?_, ?_, ?_⟩
  · intro l hvalid hnodup he
    exact Accepts.of_enough (rule_render hvalid) hnodup he
  · intro l hl hnodup
    by_cases he : h.Enough
    · exact .inl (Accepts.of_enough hl hnodup he)
    · rcases bus_match_parse_cases text h with ⟨l', hl', -, haccept⟩ | hreject
      · rw [hl.unique hl']
        exact .inl haccept
      · exact .inr ⟨he, hreject⟩
  · intro l hl htwice
    exact Rejects.of_twice hl htwice
  · intro hnone
    rcases bus_match_parse_cases text h with ⟨l, hl, -⟩ | hreject
    · exact absurd hl (hnone l)
    · exact hreject

/-- Two components, the later type first, with a quote and a backslash to
    escape. -/
theorem bus_match_parse_rules_two :
    Accepts (ascii "member='a\\'b\\\\',type='signal'")
      [⟨.member, ⟨0, ascii "a'b\\"⟩⟩, ⟨.message_type, ⟨4, []⟩⟩]
      ⟨Memory.empty, 0, fun _ => true⟩ :=
  (bus_match_parse_rules [] ⟨Memory.empty, 0, fun _ => true⟩).1
    [⟨.member, ⟨0, ascii "a'b\\"⟩⟩, ⟨.message_type, ⟨4, []⟩⟩]
    (by simp [BusMatchComponent.Valid, bus_message_type_to_string]) (by decide) (fun _ => rfl)

/-- A path is not checked: this one is none, and the rule is not refused. -/
theorem path_unchecked :
    Bus.object_path_is_valid (ascii "x") = false ∧
      ¬ Rejects (ascii "path='x'") ⟨Memory.empty, 0, fun _ => true⟩ := by
  refine ⟨by decide, ?_⟩
  rintro ⟨e, h', hparse, -⟩
  have hok : (bus_match_parse (ascii "path='x'") ⟨Memory.empty, 0, fun _ => true⟩).1.isOk = true := by
    decide +kernel
  rw [hparse] at hok
  cases hok

end SdCompat.Match
