import Mathlib.Data.List.Forall2
import SdCompat.SdBus.MessageCopyRun
import SdCompat.SdBus.MessageReadArray

/-! # What a copy adds to a message

    Wherever the source and the message that is written are, a copy that
    succeeds appends the values that are read of the source, one after another
    and each with all that is in it, and leaves the source behind them.
-/

open Bytes

namespace SdCompat.Bus

open List Value Call Nat Ty Draft SdBusMessage WriteCall

/-! ## Section 1: Values one after another -/

/-- Put values behind what has been written. -/
def Draft.push_all (vs : List Value) (d : Draft) : Draft :=
  match d.frames with
  | [] => { d with root := d.root ++ vs }
  | f :: fs => { d with frames := { f with done := f.done ++ vs } :: fs }

/-- The signature goes on with these types; in an array each of them is that of
    the elements. -/
def TypesNext (m : SdBusMessage) (ts : List Ty) : Prop :=
  if m.last_container.enclosing = SD_BUS_TYPE_ARRAY then
    ∀ t ∈ ts, t.sig <+: m.last_container.signature.drop m.last_container.index
  else sigs ts <+: m.last_container.signature.drop m.last_container.index

theorem Draft.push_all_nil (d : Draft) : d.push_all [] = d := by
  obtain ⟨root, fs⟩ := d
  cases fs with
  | nil =>
    unfold push_all
    simp
  | cons f fs =>
    unfold push_all
    simp

theorem Draft.push_all_cons (v : Value) (vs : List Value) (d : Draft) :
    (d.push v).push_all vs = d.push_all (v :: vs) := by
  obtain ⟨root, fs⟩ := d
  cases fs with
  | nil =>
    unfold push_all push
    simp
  | cons f fs =>
    unfold push_all push
    simp

variable {m : SdBusMessage}

/-- One type, and then the others. -/
theorem TypesNext.cons {t : Ty} {ts : List Ty} {saved rindex : Nat} (h : TypesNext m [t])
    (hs : TypesNext (advanced t.sig.length saved rindex m) ts) : TypesNext m (t :: ts) := by
  unfold TypesNext at h hs ⊢
  rw [advanced_last] at hs
  split at h
  · next ha =>
    rw [if_pos ha, if_pos ha] at hs
    rw [if_pos ha]
    exact forall_mem_cons.mpr ⟨h t (mem_singleton_self t), hs⟩
  · next ha =>
    rw [if_neg ha, if_neg ha] at hs
    rw [if_neg ha]
    have hsig : sigs [t] = t.sig := by simp [sigs]
    rw [hsig] at h
    obtain ⟨r, hr⟩ := h
    obtain ⟨r', hr'⟩ := hs
    rw [← drop_drop, ← hr, drop_left' rfl] at hr'
    exact ⟨r', by rw [sigs, append_assoc, hr', hr]⟩

/-- One type. -/
theorem typesNext_single {t : Ty}
    (h : t.sig <+: m.last_container.signature.drop m.last_container.index) : TypesNext m [t] := by
  unfold TypesNext
  split
  · intro t' ht
    obtain rfl := mem_singleton.mp ht
    exact h
  · have hsig : sigs [t] = t.sig := by simp [sigs]
    rwa [hsig]

/-! ## Section 2: What has been copied -/

/-- These values have been read of the source, which is left behind them, and
    have been appended to the message; file descriptors have been copied. -/
structure CopiedValues (dup : Int → Int → Prop) (F : List Int) (es₀ : List MessageEvent) (d : Draft)
    (s s' : Copying) (vs : List Value) : Prop where
  reads : ∃ es, Reads s.source es s'.source ∧
    List.Forall₂ (SameEvent dup) es (all_events F vs)
  source : ∃ saved rindex,
    s'.source = advanced (sigs (types vs)).length saved rindex s.source
  next : TypesNext s.source (types vs)
  written : Drafted F (es₀ ++ all_events F vs) s'.m (d.push_all vs)

section copied
variable {dup dup' : Int → Int → Prop} {F : List Int} {es₀ : List MessageEvent} {d : Draft}
  {s s₁ s' : Copying} {v : Value} {vs : List Value}

/-- Nothing has been copied. -/
theorem CopiedValues.nil (h : Drafted F es₀ s.m d) : CopiedValues dup F es₀ d s s [] := by
  refine ⟨⟨[], .done _, .nil⟩, ⟨s.source.last_container.saved_index, s.source.rindex, ?_⟩, ?_, ?_⟩
  · exact advanced_zero.symm
  · unfold TypesNext
    split
    · intro t ht
      cases ht
    · exact nil_prefix
  · rw [push_all_nil]
    simpa [all_events] using h

/-- One value, and then the others. -/
theorem CopiedValues.cons (h : CopiedValues dup F es₀ d s s₁ [v])
    (hs : CopiedValues dup F (es₀ ++ v.events F) (d.push v) s₁ s' vs) :
    CopiedValues dup F es₀ d s s' (v :: vs) := by
  obtain ⟨⟨es, hr, hsame⟩, ⟨saved, rindex, hadv⟩, hnext, -⟩ := h
  obtain ⟨⟨es', hr', hsame'⟩, ⟨saved', rindex', hadv'⟩, hnext', hw⟩ := hs
  have hsig : sigs (types [v]) = v.type.sig := by simp [types, sigs]
  rw [hsig] at hadv
  rw [hadv] at hnext' hadv'
  refine ⟨⟨es ++ es', hr.append hr', ?_⟩, ⟨saved', rindex', ?_⟩, ?_, ?_⟩
  · rw [all_events, all_events, append_nil] at hsame
    exact rel_append hsame hsame'
  · rw [hadv', advanced_advanced, types, sigs, length_append]
  · rw [types]
    exact TypesNext.cons hnext hnext'
  · rw [all_events, ← append_assoc, ← push_all_cons]
    exact hw

theorem SameEvent.mono {e e' : MessageEvent} (hd : ∀ fd copy, dup fd copy → dup' fd copy)
    (h : SameEvent dup e e') : SameEvent dup' e e' := by
  cases h with
  | same => exact .same e
  | unix_fd h => exact .unix_fd (hd _ _ h)

theorem CopiedValues.mono (hd : ∀ fd copy, dup fd copy → dup' fd copy)
    (h : CopiedValues dup F es₀ d s s' vs) : CopiedValues dup' F es₀ d s s' vs := by
  obtain ⟨⟨es, hr, hsame⟩, hsource, hnext, hw⟩ := h
  exact ⟨⟨es, hr, hsame.imp fun _ _ he => he.mono hd⟩, hsource, hnext, hw⟩

end copied

/-! ## Section 3: One value -/

section one
variable {dup : Int → Int → Prop} {F : List Int} {es₀ : List MessageEvent} {d : Draft}
  {s s' : Copying}

/-- The call that is made for a basic value has put a basic value behind what
    has been written. -/
theorem Draft.Step.of_append {env : AppendEnv} {a : BasicArg} {d d' : Draft}
    (h : Step (.append_basic env a) d d') :
    ∃ v : BasicValue, v.type.code = a.type ∧ d' = d.push (.basic v) := by
  generalize hc : append_basic env a = c at h
  cases h with
  | push htype =>
    obtain ⟨-, rfl⟩ := hc
    exact ⟨_, htype, rfl⟩
  | enter => cases hc
  | close _ => cases hc

/-- The reader has moved on in the signature, and to this offset. -/
theorem set_index_advanced (m : SdBusMessage) (k rindex : Nat) :
    set_index (m.last_container.index + k) { m with rindex := rindex } =
      advanced k m.last_container.saved_index rindex m := by
  have hrun : skip_index k { m with rindex := rindex } =
      (.ok ⟨⟩, advanced k m.last_container.saved_index rindex m) := skip_index_run k
  exact congrArg Prod.snd hrun

variable {aenv : AppendEnv} {env : ReadEnv} {p : PeekedType}

/-- A basic value. -/
theorem copied_basic {t : UInt8} {q : BodyRange} {v : ReadValue} (ht : p.type = t)
    (hpeek : sd_bus_message_peek_type env true s.source = (.ok (some p), s.source))
    (hread : sd_bus_message_read_basic t s.source = (.ok (some (q, v)), s'.source))
    (hrun : sd_bus_message_append_basic aenv (basic_arg t v) s.m = (.ok ⟨⟩, s'.m))
    (hdup : ∀ fd copy, v = .unix_fd fd → aenv.dup = .ok copy → dup fd copy)
    (hd : Drafted F es₀ s.m d) (hF : s'.m.fds <+: F) :
    ∃ w : Value, CopiedValues dup F es₀ d s s' [w] := by
  subst ht
  obtain ⟨hb, hcur, hvalue, hsource⟩ := read_basic_ok hread
  obtain ⟨htype, hpointed, -, -, hsame⟩ := read_value_ok (n := s.m) hb hvalue
  obtain ⟨d', hd', hstep, -⟩ := hd.step (c := .append_basic aenv (basic_arg p.type v)) hpointed
    hrun hF
  obtain ⟨w, hw, rfl⟩ := hstep.of_append
  have hevent : (append_basic aenv (basic_arg p.type v)).event =
      .basic p.type ((basic_arg p.type v).read aenv) := congrArg (MessageEvent.basic · _) htype
  rw [hevent] at hd'
  -- what has been appended is what its call puts into the message
  have hevents : (basic w).events F =
      [.basic p.type ((basic_arg p.type v).read aenv)] := by
    have h := hd'.events
    rw [events_push, hd.events] at h
    exact append_cancel_left h
  have hall : all_events F [.basic w] = (basic w).events F := by
    simp [all_events]
  refine ⟨.basic w, ⟨[.basic p.type v], ?_, ?_⟩, ?_, ?_, ?_⟩
  · exact Reads.single (read_event_of_basic hpeek hread)
  · rw [hall, hevents]
    refine .cons ?_ .nil
    rcases hsame with ⟨fd, rfl⟩ | hsame
    · -- the writer has a copy of the descriptor
      obtain ⟨n2, align, data, copy, -, -, hdata, -, -⟩ := append_basic_ok hrun
      obtain ⟨c, n3, hpush, -⟩ := of_bind_ok hdata
      obtain ⟨hcopy, -⟩ := message_push_fd_ok hpush
      simp only [BasicArg.read, hcopy]
      exact .unix_fd (hdup fd c rfl hcopy)
    · rw [hsame aenv]
      exact .same _
  · rw [hsource, set_index_advanced]
    exact ⟨_, _, rfl⟩
  · refine typesNext_single ?_
    show [w.type.code] <+: _
    rw [hw, htype]
    exact current_prefix hcur
  · rw [hall, hevents, ← push_all_cons, push_all_nil]
    exact hd'

/-- The index is kept before a container is entered. -/
theorem saved_advanced (m : SdBusMessage) (k rindex : Nat) :
    set_index ((saved_message m).last_container.index + k)
        { saved_message m with rindex := rindex } =
      advanced k m.last_container.index rindex m := by
  have hsave : saved_message m = remembered m := by
    unfold saved_message remembered advanced update_last last_container
    cases m.containers with
    | nil =>
      dsimp only [headD_nil]
      rw [add_zero, ite_self]
    | cons c cs =>
      dsimp only [headD_cons]
      rw [add_zero, ite_self]
  have hrun : skip_index k { remembered m with rindex := rindex } =
      (.ok ⟨⟩, advanced k m.last_container.index rindex m) := enter_moves k
  rw [hsave]
  exact congrArg Prod.snd hrun

/-- A container, when what is in it has been copied. -/
theorem copied_container {type : UInt8} {contents : List UInt8} {env' env'' : ReadEnv}
    {s₁ s₂ : Copying} (ht : p.type = type)
    (hpeek : sd_bus_message_peek_type env true s.source = (.ok (some p), s.source))
    (hc : bus_type_is_container type = true) (hcontents : p.contents = some contents)
    (henter : sd_bus_message_enter_container env' type (some contents) s.source = (.ok true, s₁.source))
    (hopen : sd_bus_message_open_container aenv type contents s.m = (.ok ⟨⟩, s₁.m))
    (hinside : ∀ es d, Drafted F es s₁.m d → ∃ vs, CopiedValues dup F es d s₁ s₂ vs)
    (hfds : s₁.m.fds <+: F)
    (hend : sd_bus_message_peek_type env'' true s₂.source = (.ok none, s₂.source))
    (hclose : sd_bus_message_close_container s₂.m = (.ok ⟨⟩, s'.m))
    (hexit : sd_bus_message_exit_container s₂.source = (.ok ⟨⟩, s'.source))
    (hd : Drafted F es₀ s.m d) (hF : s'.m.fds <+: F) :
    ∃ w : Value, CopiedValues dup F es₀ d s s' [w] := by
  subst ht
  obtain ⟨-, -, hp⟩ := peek_type_ok hpeek
  obtain ⟨hs, ha, -⟩ := hp.resolve_left fun h => by cases h.1
  obtain ⟨-, -, m1, array_size, hbus, hpushed⟩ :=
    enter_container_ok hs ha (container_code hc).1 henter
  obtain ⟨k, hcode, rfl, hnext, -, -, hm1⟩ := bus_message_enter_ok hbus
  rw [saved_advanced] at hm1
  rw [saved_last] at hnext
  -- the container is opened, and has in it what is copied
  obtain ⟨d1, hd1, hstep, -⟩ := hd.step (c := .open_container aenv p.type (sigs k.contents))
    trivial hopen hfds
  obtain ⟨k', hcode', hsame, rfl⟩ := hstep.of_open
  obtain rfl : k = k' := ContainerKind.eq_of_sig (hcode.trans hcode') hsame
  obtain ⟨vs, ⟨es, hreads, hevents⟩, ⟨saved, stop, hsource⟩, -, hwritten⟩ := hinside _ _ hd1
  -- it is closed
  obtain ⟨d2, hd2, hstep2, -⟩ := hwritten.step (c := .close_container) trivial hclose hF
  have hframes : (d.enter k).push_all vs = ⟨d.root, ⟨k, vs⟩ :: d.frames⟩ := rfl
  obtain ⟨w, hw, rfl⟩ : ∃ w, k.Closes vs w ∧ d2 = push w ⟨d.root, d.frames⟩ := by
    cases hstep2 with
    | close hk => exact ⟨_, hk, rfl⟩
  have hall : all_events F [w] =
      [.enter p.type (sigs k.contents)] ++ (all_events F vs ++ [.exit]) := by
    have : all_events F [w] = w.events F := by simp [all_events]
    rw [this, hw.events, hcode]
    rfl
  have hsig : sigs (types [w]) = k.ty.sig := by
    simp [types, sigs, hw.type]
  -- and the source is behind it
  have hentered : s₁.source = entered (advanced k.ty.sig.length s.source.last_container.index
      (k.begin (saved_message s.source).rindex) s.source) p.type (sigs k.contents)
        s.source.rindex array_size := by
    rw [hpushed, hm1]
    rfl
  obtain ⟨c, rest, hcontainers, -, hleft⟩ := exit_container_ok hexit
  have hrest : rest = (advanced k.ty.sig.length s.source.last_container.index
      (k.begin (saved_message s.source).rindex) s.source).containers := by
    rw [hsource, hentered] at hcontainers
    exact (cons.inj hcontainers).2.symm
  refine ⟨w, ⟨[.enter p.type (sigs k.contents)] ++ (es ++ [.exit]), ?_, ?_⟩,
    ⟨s.source.last_container.index, stop, ?_⟩, ?_, ?_⟩
  · refine (Reads.single (read_event_of_enter hpeek hc hcontents henter)).append (hreads.append ?_)
    refine Reads.single (read_event_of_exit ?_ hend hexit)
    rw [hcontainers]
    exact succ_pos _
  · rw [hall]
    exact rel_append (.cons (.same _) .nil) (rel_append hevents (.cons (.same _) .nil))
  · rw [hsig, hleft, hsource, hentered, hrest]
    exact leave_entered
  · have htypes : types [w] = [k.ty] := by simp [types, hw.type]
    rw [htypes]
    exact typesNext_single hnext
  · rw [hall, ← push_all_cons, push_all_nil, ← append_assoc, ← append_assoc]
    exact hd2

end one

/-! ## Section 4: All of them -/

section all
variable {F : List Int} {es₀ : List MessageEvent} {d : Draft}

/-- What a copy leaves where it is at the end of the container it started in. -/
def AtEnd (s : Copying) : Prop :=
  ∃ env, sd_bus_message_peek_type env true s.source = (.ok none, s.source)

theorem Reads.of_nil {m m' : SdBusMessage} (h : Reads m [] m') : m' = m := by
  cases h
  rfl

/-- A copy that succeeds has copied values: all up to the end of the container,
    or one, if there is one. -/
def CopiedNext (env : CopyEnv) (F : List Int) (all : Bool) (s s' : Copying) (b : Bool) : Prop :=
  ∀ es₀ d, Drafted F es₀ s.m d → s'.m.fds <+: F →
    ∃ vs, CopiedValues env.Dup F es₀ d s s' vs ∧ b = !vs.isEmpty ∧
      (all = true ∨ vs = [] → AtEnd s') ∧ (all = false → vs.length ≤ 1)

variable {env : CopyEnv} {s s' : Copying}

/-- File descriptors are appended only. -/
theorem copied_fds (h : Copied env s s') : s.m.fds <+: s'.m.fds := by
  obtain ⟨es, cs, hrun, -⟩ := h
  exact (write_all_frame hrun.writes).1

/-- What is left to do after one value. -/
theorem CopiedNext.after {all b : Bool} {s₁ : Copying}
    (hone : ∀ es₀ d, Drafted F es₀ s.m d → s₁.m.fds <+: F → ∃ w : Value, CopiedValues env.Dup F es₀ d s s₁ [w])
    (hrest : (all = false ∧ s' = s₁) ∨ (all = true ∧ s₁.m.fds <+: s'.m.fds ∧ CopiedNext (env.sub 1) F true s₁ s' b)) :
    CopiedNext env F all s s' true := by
  intro es₀ d hd hF
  rcases hrest with ⟨rfl, rfl⟩ | ⟨rfl, hfds, hnext⟩
  · obtain ⟨w, hw⟩ := hone es₀ d hd hF
    exact ⟨[w], hw, rfl, fun h => by cases h <;> contradiction, fun _ => le_rfl⟩
  · obtain ⟨w, hw⟩ := hone es₀ d hd (hfds.trans hF)
    have hone' : all_events F [w] = w.events F := by simp [all_events]
    have hwritten := hw.written
    rw [hone', ← push_all_cons, push_all_nil] at hwritten
    obtain ⟨vs, hvs, -, hend, -⟩ := hnext _ _ hwritten hF
    exact ⟨w :: vs, hw.cons (hvs.mono fun _ _ h => CopyEnv.dup_sub h), rfl,
      fun _ => hend (.inl rfl), fun h => by cases h⟩

/-- Induction over the fuel: the loop, and the containers in it. -/
theorem copied_next (fuel : Nat) :
    (∀ env all s b s', sd_bus_message_copy fuel env all s = (.ok b, s') →
      CopiedNext env F all s s' b) ∧
    ∀ env all done_something s b s', copy_loop fuel env all done_something s = (.ok b, s') →
      ∃ b', CopiedNext env F all s s' b' ∧ b = (done_something || b') := by
  induction fuel with
  | zero =>
    constructor
    · intro env all s b s' h
      cases h
    · intro env all done s b s' h
      cases h
  | succ fuel ih =>
    obtain ⟨ihcopy, ihloop⟩ := ih
    constructor
    · intro env all s b s' h
      obtain ⟨-, h⟩ := of_check_bind_ok h
      obtain ⟨-, h⟩ := of_check_bind_ok h
      obtain ⟨b', hnext, rfl⟩ := ihloop _ _ _ _ _ _ h
      exact hnext
    · intro env all done s b s' h
      obtain ⟨r, s₁, hpeek, h⟩ := of_bind_ok h
      obtain ⟨hpeek, hm₁⟩ := on_source_ok hpeek
      obtain ⟨-, hsame, hr⟩ := peek_type_ok hpeek
      obtain rfl : s₁ = s := by
        exact congrArg₂ Copying.mk hm₁ hsame
      cases r with
      | none =>
        cases h
        refine ⟨false, fun es₀ d hd _ => ⟨[], .nil hd, rfl, fun _ => ⟨_, hpeek⟩, fun _ => ?_⟩, ?_⟩
        · exact zero_le _
        · rw [Bool.or_false]
      | some p =>
        obtain ⟨hs, ha, p', hp', hnamed⟩ := hr.resolve_left fun h => by cases h.1
        cases hp'
        dsimp only at h
        -- what the loop does after one value
        have hloop : ∀ {s₂ : Copying},
            (if all then copy_loop fuel (env.sub 1) all true else pure true) s₂ = (.ok b, s') →
            b = true ∧ ∃ b', (all = false ∧ s' = s₂) ∨ (all = true ∧ s₂.m.fds <+: s'.m.fds ∧
              CopiedNext (env.sub 1) F true s₂ s' b') := by
          intro s₂ h
          cases all with
          | false =>
            cases h
            exact ⟨rfl, true, .inl ⟨rfl, rfl⟩⟩
          | true =>
            obtain ⟨b', hnext, rfl⟩ := ihloop _ _ _ _ _ _ h
            exact ⟨Bool.true_or _, b', .inr ⟨rfl, copied_fds ((copy_ok fuel).2 _ _ _ _ _ h), hnext⟩⟩
        by_cases hcont : bus_type_is_container p.type = true
        · rw [if_pos hcont] at h
          obtain ⟨contents, hcontents⟩ : ∃ contents, p.contents = some contents := by
            rcases hnamed with hb | ⟨-, hc⟩
            · rw [(container_code hcont).2] at hb
              cases hb
            · exact hc
          rw [hcontents] at h
          obtain ⟨b₂, s₂, henter, h⟩ := of_bind_ok h
          obtain ⟨⟨⟩, s₃, hopen, h⟩ := of_bind_ok h
          obtain ⟨b₄, s₄, hinner, h⟩ := of_bind_ok h
          obtain ⟨⟨⟩, s₅, hclose, h⟩ := of_bind_ok h
          obtain ⟨⟨⟩, s₆, hexit, h⟩ := of_bind_ok h
          obtain ⟨rfl, b', hrest⟩ := hloop h
          obtain ⟨henter, hm₂⟩ := on_source_ok henter
          obtain ⟨hopen, hsource₃⟩ := on_message_ok hopen
          obtain ⟨hclose, hsource₅⟩ := on_message_ok hclose
          obtain ⟨hexit, hm₆⟩ := on_source_ok hexit
          have hinner_fds := copied_fds ((copy_ok fuel).1 _ _ _ _ hinner)
          have hclose_fds := (run_frame (c := .close_container) hclose).1
          rw [← hm₆] at hclose
          rw [hm₂] at hopen
          rw [hsource₅] at hexit
          rw [← hm₆] at hclose_fds
          have hentered : b₂ = true :=
            (enter_container_ok hs ha (container_code hcont).1 henter).1
          rw [hentered, ← hsource₃] at henter
          have hnext := ihcopy _ _ _ _ _ hinner
          refine ⟨true, CopiedNext.after ?_ hrest, (Bool.or_true _).symm⟩
          intro es₀ d hd hF
          have hF₄ := hclose_fds.trans hF
          have hend : AtEnd s₄ := by
            obtain ⟨_, _, -, -, env', hend⟩ := (copy_ok fuel).1 _ _ _ _ hinner
            exact ⟨env', hend⟩
          obtain ⟨env', hend⟩ := hend
          refine copied_container rfl hpeek hcont hcontents henter hopen ?_ (hinner_fds.trans hF₄)
            hend hclose hexit hd hF
          intro es d hd
          obtain ⟨vs, hvs, -⟩ := hnext es d hd hF₄
          exact ⟨vs, hvs.mono fun _ _ h => CopyEnv.dup_sub h⟩
        · rw [if_neg hcont] at h
          obtain ⟨r, s₂, hread, h⟩ := of_bind_ok h
          obtain ⟨hread, hm₂⟩ := on_source_ok hread
          cases r with
          | none => cases h
          | some qv =>
            obtain ⟨⟨⟩, s₃, happend, h⟩ := of_bind_ok h
            obtain ⟨rfl, b', hrest⟩ := hloop h
            obtain ⟨happend, hsource₃⟩ := on_message_ok happend
            rw [hm₂] at happend
            rw [← hsource₃] at hread
            refine ⟨true, CopiedNext.after ?_ hrest, (Bool.or_true _).symm⟩
            intro es₀ d hd hF
            refine copied_basic rfl hpeek hread happend ?_ hd hF
            intro fd copy hv hc
            rw [hv] at hc
            exact ⟨[], hc⟩

/-- The reader is where `sd_bus_message_rewind` puts it. -/
structure SdBusMessage.Rewound (m : SdBusMessage) : Prop where
  containers : m.containers = []
  index : m.root_container.index = 0
  rindex : m.rindex = 0

/-- A message that has been read to its end has the types that have been
    read. -/
theorem CopiedValues.signature {dup : Int → Int → Prop} {vs : List Value}
    (h : CopiedValues dup F es₀ d s s' vs) (hr : s.source.Rewound)
    (hroot : s.source.root_container.enclosing = 0) (hend : AtEnd s') :
    sigs (types vs) = s.source.root_container.signature ∧
      read_event s'.source = (.ok none, s'.source) := by
  obtain ⟨saved, rindex, hsource⟩ := h.source
  obtain ⟨env, hpeek⟩ := hend
  have hlast : s.source.last_container = s.source.root_container := by
    unfold last_container
    rw [hr.containers]
    rfl
  have hnot : s.source.last_container.enclosing ≠ SD_BUS_TYPE_ARRAY := by
    rw [hlast, hroot]
    decide
  have hnext := h.next
  unfold TypesNext at hnext
  rw [if_neg hnot, hlast, hr.index, drop_zero] at hnext
  have hcontainers : s'.source.containers = [] := by
    rw [hsource, ← length_eq_zero_iff, advanced_depth, hr.containers]
    rfl
  have hlast' : s'.source.last_container = s'.source.root_container := by
    unfold last_container
    rw [hcontainers]
    rfl
  have hadv : (advanced (sigs (types vs)).length saved rindex s.source).last_container = _ :=
    advanced_last
  rw [← hsource, if_neg hnot, hlast, hr.index] at hadv
  have hroot' : s'.source.root_container.enclosing = 0 := by
    rw [← hlast', hadv]
    exact hroot
  obtain ⟨hs, hevent⟩ := read_event_of_end hcontainers hroot' hpeek
  refine ⟨hnext.eq_of_length ?_, hevent⟩
  -- the signature is at its end
  unfold message_end_of_signature BusMessageContainer.current at hs
  rw [hadv] at hs
  have hle := getElem?_eq_none_iff.mp (Option.isNone_iff_eq_none.mp hs)
  have := hnext.length_le
  dsimp only at hle
  omega

/-- **Message copy**: a copy that succeeds appends the values that are read of
    the source, with all that is in them. If all is to be copied, and the source
    is rewound, these are all of its values, and their types are its signature;
    otherwise it is the next element only. The source is left behind them. -/
theorem sd_bus_message_copy_values {fuel : Nat} {env : CopyEnv} {all b : Bool} {s s' : Copying}
    (hsource : Reading s.source.body s.source) (hd : Drafted F es₀ s.m d) (hF : s'.m.fds <+: F)
    (h : sd_bus_message_copy fuel env all s = (.ok b, s')) :
    ∃ vs, CopiedValues env.Dup F es₀ d s s' vs ∧ b = !vs.isEmpty ∧
      (s.m.containers = [] → s'.m.root_container.signature =
        s.m.root_container.signature ++ sigs (types vs)) ∧
      (all = true → AtEnd s') ∧
      (all = true → s.source.Rewound →
        sigs (types vs) = s.source.root_container.signature ∧
          read_event s'.source = (.ok none, s'.source)) ∧
      (all = false → (∃ v, vs = [v]) ∨ vs = [] ∧ AtEnd s ∧ s'.source = s.source) := by
  obtain ⟨vs, hvs, rfl, hend, hone⟩ := (copied_next fuel).1 _ _ _ _ _ h es₀ d hd hF
  refine ⟨vs, hvs, rfl, ?_, fun hall => hend (.inl hall), ?_, ?_⟩
  · intro hc
    have hframes : d.frames = [] := by
      rw [← length_eq_zero_iff, ← hd.depth, hc]
      rfl
    obtain ⟨root, fs⟩ := d
    subst hframes
    rw [hvs.written.stacked.root_signature, hd.stacked.root_signature]
    show sigs (types (root ++ vs) ++ []) = sigs (types root ++ []) ++ _
    rw [append_nil, append_nil, types_append, sigs_append]
  · intro hall hr
    exact hvs.signature hr hsource.root (hend (.inl hall))
  · intro hall
    match vs, hvs, hend, hone hall with
    | [], hvs, hend, _ =>
      obtain ⟨es, hreads, hsame⟩ := hvs.reads
      cases hsame
      have hleft : s'.source = s.source := hreads.of_nil
      obtain ⟨env', hpeek⟩ := hend (.inr rfl)
      rw [hleft] at hpeek
      exact .inr ⟨rfl, ⟨env', hpeek⟩, hleft⟩
    | [v], _, _, _ => exact .inl ⟨v, rfl⟩

end all

/-- Nothing fails, and no descriptor is copied. -/
def CopyEnv.plain : CopyEnv where
  read _ := true
  append _ := ⟨true, true, true, true, true, true, .error .ENOMEM⟩
  dup _ _ := .error .ENOMEM

/-- An array of one number, in the byte order of another host. -/
def foreign_array : SdBusMessage :=
  { received (ascii "aq") [0, 0, 0, 2, 0, 7] with endian := .big }

/-- It is copied to a new message. -/
def foreign_copy : Outcome Bool × Copying :=
  sd_bus_message_copy 9 .plain true ⟨sd_bus_message_new 1 true true, foreign_array⟩

theorem sd_bus_message_copy_values_foreign : ∃ vs,
    CopiedValues CopyEnv.plain.Dup [] [] ⟨[], []⟩
      ⟨sd_bus_message_new 1 true true, foreign_array⟩ foreign_copy.2 vs ∧
      true = !vs.isEmpty := by
  have hsource : Reading foreign_array.body foreign_array :=
    ⟨rfl, rfl, zero_le _, zero_le _, .singleton _, fun c hc => (by cases hc), rfl, rfl⟩
  have hok : foreign_copy.1 = .ok true := by decide +kernel
  have hfds : foreign_copy.2.m.fds = [] := by decide +kernel
  have hrun : foreign_copy = (.ok true, foreign_copy.2) := by rw [← hok]
  obtain ⟨vs, hvs, hne, -⟩ := sd_bus_message_copy_values
    (s := ⟨sd_bus_message_new 1 true true, foreign_array⟩) hsource
    (Written.fresh [] rfl rfl rfl rfl).drafted (hfds ▸ prefix_rfl) hrun
  exact ⟨vs, hvs, hne⟩

end SdCompat.Bus
