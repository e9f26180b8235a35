import Mathlib.Data.List.Forall2
import SdCompat.SdBus.MessageCopyRun

/-! # Messages that are replaced

    A message that is replaced by a copy in the byte order of the host keeps its
    body, if none of it has been read; of its header it does not keep
    everything.
-/

open Bytes

namespace SdCompat.Bus

open Call List SdBusMessage Outcome Nat Draft WriteCall

variable {m m' m₀ m₁ n n' n₀ n₁ : SdBusMessage}

/-! ## Section 1: The header of the copy -/

/-- The reply has the cookie of the call, and no path, interface or member. -/
def is_reply (m : SdBusMessage) : Bool :=
  m.type == SD_BUS_MESSAGE_METHOD_RETURN || m.type == SD_BUS_MESSAGE_METHOD_ERROR

/-- The flags of the copy: that of the bus, that of a signal, and what is left
    of those of the message. -/
def copied_flags (interactive : Bool) (m : SdBusMessage) : UInt8 :=
  ((if interactive then BUS_MESSAGE_ALLOW_INTERACTIVE_AUTHORIZATION else 0) |||
    (if m.type = SD_BUS_MESSAGE_SIGNAL then BUS_MESSAGE_NO_REPLY_EXPECTED else 0)) |||
    (m.flags &&& (BUS_MESSAGE_NO_REPLY_EXPECTED ||| BUS_MESSAGE_NO_AUTO_START))

/-- The copy before its body is written. -/
def copied_header (env : NewEnv) (m : SdBusMessage) (fields : List UInt8) : SdBusMessage :=
  { sd_bus_message_new m.type env.allow_fds env.interactive with
    flags := copied_flags env.interactive m
    fields := fields
    path := if is_reply m then none else m.path
    interface := if is_reply m then none else m.interface
    member := if is_reply m then none else m.member
    destination := m.destination
    sender := m.sender
    reply_cookie := if is_reply m then m.reply_cookie else 0 }

variable {h : UInt8} {mem : Bool}

variable {s : List UInt8} {type : UInt8}

/-- Appending a field changes nothing else. -/
theorem append_field_string_frame (hrun : message_append_field_string mem h type s m = (.ok ⟨⟩, m')) :
    ∃ fields, m' = { m with fields := fields } :=
  ⟨_, message_append_field_ok (message_append_field_string_ok hrun)⟩

/-- So does appending a name, but for the pointer to it. -/
theorem append_set_frame {set : SdBusMessage → SdBusMessage}
    (hrun : (message_append_field_string mem h type s >>= fun _ => Call.modify set) m = (.ok ⟨⟩, m')) :
    ∃ fields, m' = set { m with fields := fields } := by
  obtain ⟨⟨⟩, m₁, hx, hrest⟩ := of_bind_ok hrun
  obtain ⟨fields, rfl⟩ := append_field_string_frame hx
  cases hrest
  exact ⟨fields, rfl⟩

variable {set : List UInt8 → SdBusMessage → SdBusMessage}

variable {o : Option (List UInt8)}

theorem when_set_frame
    (hrun : when_set o (fun s => message_append_field_string mem h type s >>= fun _ => Call.modify (set s)) m = (.ok ⟨⟩, m')) :
    ∃ fields, m' = (o.elim id set) { m with fields := fields } := by
  rcases when_set_ok hrun with ⟨rfl, rfl⟩ | ⟨s, rfl, hx⟩
  · exact ⟨m'.fields, rfl⟩
  · exact append_set_frame hx

theorem append_name_frame {there : SdBusMessage → Bool}
    (hrun : append_name mem h set o there m = (.ok ⟨⟩, m')) :
    ∃ fields, m' = (if there m then id else o.elim id set) { m with fields := fields } := by
  unfold append_name at hrun
  rw [get_bind_run] at hrun
  cases ht : there m with
  | true =>
    rw [ht] at hrun
    cases hrun
    exact ⟨_, rfl⟩
  | false =>
    rw [ht] at hrun
    exact when_set_frame hrun

section fields
variable {env : NewEnv} {s : List UInt8}

theorem append_path_frame (hrun : append_path env s m = (.ok ⟨⟩, m')) :
    ∃ fields, m' = { m with fields := fields, path := some s } := append_set_frame hrun

theorem append_interface_frame (hrun : append_interface env s m = (.ok ⟨⟩, m')) :
    ∃ fields, m' = { m with fields := fields, interface := some s } := append_set_frame hrun

theorem append_member_frame (hrun : append_member env s m = (.ok ⟨⟩, m')) :
    ∃ fields, m' = { m with fields := fields, member := some s } := append_set_frame hrun

theorem append_destination_frame (hrun : append_destination env s m = (.ok ⟨⟩, m')) :
    ∃ fields, m' = { m with fields := fields, destination := some s } := append_set_frame hrun

end fields

variable {env : RemarshalEnv}

/-- The destination and the sender of the copy, and its flags. -/
theorem remarshal_header_ok (hrun : remarshal_header env m n = (.ok ⟨⟩, n'))
    (hdest : n.destination = none ∨ n.destination = m.destination) (hsender : n.sender = none) :
    ∃ fields, n' = { n with
      fields := fields, destination := m.destination, sender := m.sender
      flags := n.flags |||
        (m.flags &&& (BUS_MESSAGE_NO_REPLY_EXPECTED ||| BUS_MESSAGE_NO_AUTO_START)) } := by
  obtain ⟨⟨⟩, n₁, h1, hrun⟩ := of_bind_ok hrun
  obtain ⟨⟨⟩, n2, h2, hrun⟩ := of_bind_ok hrun
  cases hrun
  obtain ⟨f1, hn1⟩ := append_name_frame h1
  obtain ⟨f2, hn2⟩ := append_name_frame h2
  have hd : n₁ = { n with fields := f1, destination := m.destination } := by
    rw [hn1]
    cases hm : m.destination with
    | none =>
      have hnone : n.destination = none := by
        rcases hdest with h | h
        · exact h
        · rw [h, hm]
      rw [hnone]
      rfl
    | some s =>
      rcases hdest with h | h
      · rw [h]
        rfl
      · rw [h, hm]
        rfl
  have hs : n2 = { n₁ with fields := f2, sender := m.sender } := by
    have hnone : n₁.sender = none := by
      rw [hd]
      exact hsender
    rw [hn2, hnone]
    cases m.sender with
    | none => rfl
    | some s => rfl
  refine ⟨f2, ?_⟩
  rw [hs, hd]

/-- The copy before its body is written. -/
theorem remarshal_new_ok (hnew : remarshal_new env m = .ok n)
    (hrun : remarshal_header env m n = (.ok ⟨⟩, n')) :
    ∃ fields, n' = copied_header env.new m fields := by
  unfold remarshal_new at hnew
  unfold copied_header copied_flags
  by_cases hsignal : m.type = SD_BUS_MESSAGE_SIGNAL
  · rw [if_pos hsignal] at hnew ⊢
    have hreply : is_reply m = false := by
      unfold is_reply
      rw [hsignal]
      decide
    rw [hreply]
    match hpath : m.path, hinterface : m.interface, hmember : m.member with
    | some path, some interface, some member =>
      rw [hpath, hinterface, hmember] at hnew
      dsimp only at hnew
      unfold sd_bus_message_new_signal_to at hnew
      split_ifs at hnew
      have hx := made_ok hnew
      obtain ⟨⟨⟩, n₁, h1, hx⟩ := of_bind_ok hx
      cases h1
      obtain ⟨⟨⟩, n2, h2, hx⟩ := of_bind_ok hx
      obtain ⟨f2, rfl⟩ := append_path_frame h2
      obtain ⟨⟨⟩, n3, h3, hx⟩ := of_bind_ok hx
      obtain ⟨f3, rfl⟩ := append_interface_frame h3
      obtain ⟨⟨⟩, n4, h4, hx⟩ := of_bind_ok hx
      obtain ⟨f4, rfl⟩ := append_member_frame h4
      cases hx
      obtain ⟨fields, rfl⟩ := remarshal_header_ok hrun (.inl rfl) rfl
      rw [hsignal]
      exact ⟨fields, rfl⟩
    | none, _, _ =>
      rw [hpath] at hnew
      cases hnew
    | some _, none, _ =>
      rw [hpath, hinterface] at hnew
      cases hnew
    | some _, some _, none =>
      rw [hpath, hinterface, hmember] at hnew
      cases hnew
  rw [if_neg hsignal] at hnew ⊢
  by_cases hcall : m.type = SD_BUS_MESSAGE_METHOD_CALL
  · rw [if_pos hcall] at hnew
    have hreply : is_reply m = false := by
      unfold is_reply
      rw [hcall]
      decide
    rw [hreply]
    match hpath : m.path, hmember : m.member with
    | some path, some member =>
      rw [hpath, hmember] at hnew
      dsimp only at hnew
      unfold sd_bus_message_new_method_call at hnew
      split_ifs at hnew
      have hx := made_ok hnew
      obtain ⟨⟨⟩, n2, h2, hx⟩ := of_bind_ok hx
      obtain ⟨f2, rfl⟩ := append_path_frame h2
      obtain ⟨⟨⟩, n3, h3, hx⟩ := of_bind_ok hx
      obtain ⟨f3, rfl⟩ := append_member_frame h3
      obtain ⟨⟨⟩, n4, h4, hx⟩ := of_bind_ok hx
      have hn4 : ∃ fields, n4 = { sd_bus_message_new SD_BUS_MESSAGE_METHOD_CALL
          env.new.allow_fds env.new.interactive with
            fields := fields, path := some path, member := some member
            interface := m.interface } := by
        rcases when_set_ok h4 with ⟨hi, rfl⟩ | ⟨i, hi, h4⟩
        · rw [hi]
          exact ⟨_, rfl⟩
        · obtain ⟨f4, rfl⟩ := append_interface_frame h4
          rw [hi]
          exact ⟨_, rfl⟩
      obtain ⟨f4, rfl⟩ := hn4
      have hn : ∃ fields, n = { sd_bus_message_new SD_BUS_MESSAGE_METHOD_CALL
          env.new.allow_fds env.new.interactive with
            fields := fields, path := some path, member := some member
            interface := m.interface, destination := m.destination } := by
        rcases when_set_ok hx with ⟨hd, rfl⟩ | ⟨d, hd, hx⟩
        · rw [hd]
          exact ⟨_, rfl⟩
        · obtain ⟨f5, rfl⟩ := append_destination_frame hx
          rw [hd]
          exact ⟨_, rfl⟩
      obtain ⟨f, rfl⟩ := hn
      obtain ⟨fields, rfl⟩ := remarshal_header_ok hrun (.inr rfl) rfl
      rw [hcall]
      simp [sd_bus_message_new]
    | none, _ =>
      rw [hpath] at hnew
      cases hnew
    | some _, none =>
      rw [hpath, hmember] at hnew
      cases hnew
  rw [if_neg hcall] at hnew
  by_cases hreply : (m.type = SD_BUS_MESSAGE_METHOD_RETURN ||
      m.type = SD_BUS_MESSAGE_METHOD_ERROR) = true
  · rw [if_pos hreply] at hnew
    have hreply' : is_reply m = true := by
      simpa [is_reply] using hreply
    rw [hreply']
    have hx := made_ok hnew
    obtain ⟨⟨⟩, n₁, h1, hx⟩ := of_bind_ok hx
    cases h1
    obtain ⟨⟨⟩, n2, h2, hx⟩ := of_bind_ok hx
    have hn2 : ∃ fields, n2 = { sd_bus_message_new m.type env.new.allow_fds
        env.new.interactive with fields := fields, reply_cookie := m.reply_cookie } := by
      obtain ⟨-, h2⟩ := of_check_bind_ok h2
      exact ⟨_, message_append_field_ok h2⟩
    obtain ⟨f2, rfl⟩ := hn2
    have hn : ∃ fields, n = { sd_bus_message_new m.type env.new.allow_fds
        env.new.interactive with fields := fields, reply_cookie := m.reply_cookie } := by
      split_ifs at hx
      · rcases when_set_ok hx with ⟨-, rfl⟩ | ⟨s, -, hx⟩
        · exact ⟨_, rfl⟩
        · obtain ⟨f3, rfl⟩ := append_field_string_frame hx
          exact ⟨_, rfl⟩
      · cases hx
        exact ⟨_, rfl⟩
    obtain ⟨f, rfl⟩ := hn
    obtain ⟨fields, rfl⟩ := remarshal_header_ok hrun (.inl rfl) rfl
    simp [sd_bus_message_new]
  · rw [if_neg hreply] at hnew
    cases hnew

/-! ## Section 2: Copies that are started later

    The copy of a message that was read in part is shorter than the message, so
    that its arrays are not too long if the message is not. -/

section behind
variable {dup : Int → Int → Prop} {F : List Int} {es₀ es es' : List MessageEvent}
  {cs : List WriteCall} {d : Draft} {base : Nat}

/-- The copy is not ahead of the reader. -/
structure Behind (m : SdBusMessage) (d : Draft) (base : Nat) : Prop where
  reading : Reading m.body m
  size : m.body.length ≤ BUS_ARRAY_MAX_SIZE
  pos : (d.body 0).length ≤ m.rindex
  depth : m.containers.length = base + d.frames.length

variable {e : MessageEvent}

theorem read_event_reading (h : Reading m.body m) (hread : read_event m = (.ok (some e), m₁)) :
    Reading m₁.body m₁ ∧ m₁.body = m.body := by
  have hnext : Reading m.body m₁ := by
    rcases read_event_cases hread with ⟨t, q, v, -, hr⟩ |
      ⟨type, contents, -, ht, -, -, hr⟩ | ⟨-, hr⟩
    · have hx := (sd_bus_message_read_basic_ensures t h).of_ok (by rw [hr])
      rw [hr] at hx
      exact hx.1
    · have hx := (enter_named_ensures .all contents h ht).of_ok (by rw [hr])
      rw [hr] at hx
      exact (hx.2 rfl).reading
    · have hx := (sd_bus_message_exit_container_ensures h).of_ok (by rw [hr])
      rw [hr] at hx
      exact hx.1
  rw [hnext.body_eq]
  exact ⟨hnext, rfl⟩

theorem ContainerKind.begin_mono (k : ContainerKind) {pos pos' : Nat} (h : pos ≤ pos') :
    k.begin pos ≤ k.begin pos' := by
  cases k with
  | array elem =>
    have h1 := alignTo_mono 4 h
    exact alignTo_mono _ (by omega)
  | variant t => exact Nat.add_le_add_right h _
  | struct members => exact alignTo_mono 8 h
  | dict_entry key value => exact alignTo_mono 8 h

/-- One step of both. -/
theorem Behind.step {c : WriteCall} (hw : Written F es₀ n d) (h : Behind m d base)
    (hread : read_event m = (.ok (some e), m₁)) (hrun : c.run n = (.ok ⟨⟩, n₁))
    (hcopy : CopyOf dup e c) (hF : n₁.fds <+: F) :
    ∃ d', Written F (es₀ ++ [c.event]) n₁ d' ∧ Behind m₁ d' base := by
  obtain ⟨hreading, hbody⟩ := read_event_reading h.reading hread
  have hsize := h.size
  have hpos := h.pos
  have hdepth := h.depth
  rw [← hbody] at hsize
  rcases read_event_cases hread with ⟨t, q, v, rfl, hr⟩ |
    ⟨type, contents, rfl, ht, hs, ha, hr⟩ | ⟨rfl, hr⟩
  · cases hcopy with
    | @basic env _ _ _ =>
      obtain ⟨hb, -, hvalue, hm1⟩ := read_basic_ok hr
      obtain ⟨-, hpointed, hwithin, htakes, -⟩ := read_value_ok (n := n) hb hvalue
      obtain ⟨d', hw', hstep⟩ := hw.step (c := .append_basic env (basic_arg t v)) hpointed
        (hwithin env) hrun hF
      refine ⟨d', hw', hreading, hsize, ?_, ?_⟩
      · cases hstep with
        | @push _ _ n_fds _ hcode =>
          have hmono := alignTo_mono ((basic_arg t v).value n_fds).type.align hpos
          rw [hm1, set_index_rindex, length_push_basic]
          rw [htakes n_fds]
          exact Nat.add_le_add_right hmono _
      · rw [hm1, set_index_depth]
        cases hstep with
        | push _ => rw [hdepth, push_depth]
  · cases hcopy with
    | @enter env _ _ =>
      obtain ⟨-, hlt, m2, array_size, henter, hm1⟩ := enter_container_ok hs ha ht hr
      obtain ⟨k, rfl, rfl, -, hshort, -, hm2⟩ := bus_message_enter_ok henter
      have hwithin : (open_container env k.ty.code (Ty.sigs k.contents)).Within n := by
        refine ⟨?_, hshort⟩
        rw [hw.depth]
        omega
      obtain ⟨d', hw', hstep⟩ := hw.step
        (c := .open_container env k.ty.code (Ty.sigs k.contents)) trivial hwithin hrun hF
      obtain ⟨k', hcode, hcontents, rfl⟩ := hstep.of_open
      obtain rfl := ContainerKind.eq_of_sig hcode hcontents
      refine ⟨_, hw', hreading, hsize, ?_, ?_⟩
      · have hmono := k.begin_mono hpos
        rw [body_enter, length_append, ContainerKind.length_head, hm1]
        rw [hm2, set_index_rindex]
        unfold saved_message
        rw [update_last_rindex]
        exact hmono
      · rw [hm1]
        show m2.containers.length + 1 = base + (d.frames.length + 1)
        rw [hm2, set_index_depth]
        rw [saved_depth]
        omega
  · cases hcopy with
    | exit =>
      obtain ⟨c, rest, hc, -, hm1⟩ := exit_container_ok hr
      obtain ⟨cn, restn, hcn, -, -⟩ := close_container_ok hrun
      have hfs : d.frames ≠ [] := by
        intro hnil
        have hlen := hw.depth
        rw [hcn, hnil] at hlen
        cases hlen
      have hwithin : close_container.Within n := by
        intro a hn
        obtain ⟨elem, vs, root, fs, rfl, hword⟩ := hw.closing_array hn hfs
        have hle := h.reading.rindex_le
        have hp : (frames_body 0 root (⟨.array elem, vs⟩ :: fs)).length ≤ m.rindex := hpos
        rw [length_frames_body_cons] at hp
        rw [hbody] at hsize
        dsimp only at hp
        omega
      obtain ⟨d', hw', hstep⟩ := hw.step (c := .close_container) trivial hwithin hrun hF
      refine ⟨d', hw', hreading, hsize, ?_, ?_⟩
      · cases hstep with
        | @close k vs v root fs hk =>
          rw [length_close hk, hm1]
          exact hpos
      · rw [hc, length_cons] at hdepth
        cases hstep with
        | @close k vs v root fs hk =>
          rw [hm1, push_depth]
          have hcons : (⟨root, ⟨k, vs⟩ :: fs⟩ : Draft).frames.length = fs.length + 1 := rfl
          show rest.length = base + fs.length
          omega

theorem CopyRun.behind (hrun : CopyRun dup m n es cs m' n') (hw : Written F es₀ n d)
    (h : Behind m d base) (hF : n'.fds <+: F) : ∃ d', Written F (es₀ ++ cs.map event) n' d' := by
  induction hrun generalizing es₀ d with
  | done m n =>
    rw [map_nil, append_nil]
    exact ⟨d, hw⟩
  | step hread hc hcopy hrest ih =>
    have hF1 := (write_all_frame hrest.writes).1.trans hF
    obtain ⟨d1, hw1, h1⟩ := Behind.step hw h hread hc hcopy hF1
    have hd := ih hw1 h1 hF
    rwa [append_assoc] at hd

end behind

/-! ## Section 3: The body of the copy -/

/-- Sealing changes the fields and nothing else that was written. -/
theorem sd_bus_message_seal_frame {env : SealEnv} {enforced : Option (List UInt8)} {cookie : Nat}
    (hrun : sd_bus_message_seal env enforced cookie m = (.ok ⟨⟩, m')) :
    m.containers = [] ∧ m.root_container.signature.length ≤ SD_BUS_MAXIMUM_SIGNATURE_LENGTH ∧
      ∃ fields, m' = { m with
        fields := fields, serial := cookie, sealed := true
        root_container := { m.root_container with end_ := m.body.length, index := 0 } } := by
  obtain ⟨-, hrun⟩ := of_check_bind_ok hrun
  obtain ⟨hclosed, hrun⟩ := of_check_bind_ok hrun
  obtain ⟨-, hrun⟩ := of_check_bind_ok hrun
  obtain ⟨-, hrun⟩ := of_check_bind_ok hrun
  obtain ⟨-, hrun⟩ := of_check_bind_ok hrun
  obtain ⟨⟨⟩, m2, h2, hrun⟩ := of_bind_ok hrun
  obtain ⟨⟨⟩, m3, h3, hrun⟩ := of_bind_ok hrun
  cases hrun
  have hsig : m.root_container.signature.length ≤ SD_BUS_MAXIMUM_SIGNATURE_LENGTH ∧
      ∃ fields, m2 = { m with fields := fields } := by
    unfold append_signature at h2
    split at h2
    · next hnil =>
      cases h2
      rw [hnil]
      exact ⟨zero_le _, _, rfl⟩
    · obtain ⟨hlen, h2⟩ := of_check_bind_ok h2
      exact ⟨of_decide_eq_true hlen, _, message_append_field_ok h2⟩
  obtain ⟨hlen, f2, hm2⟩ := hsig
  have hfds : ∃ fields, m3 = { m2 with fields := fields } := by
    unfold append_unix_fds at h3
    split at h3
    · cases h3
      exact ⟨_, rfl⟩
    · exact ⟨_, message_append_field_ok h3⟩
  obtain ⟨f3, hm3⟩ := hfds
  refine ⟨isEmpty_iff.mp hclosed, hlen, f3, ?_⟩
  rw [hm3, hm2]

/-- What a remarshalling that succeeds has done: the copy with its header, the
    copied body, and the seal. -/
theorem bus_message_remarshal_ok {fuel : Nat} (h : bus_message_remarshal env fuel m = .ok n) :
    ∃ fields n₁ m' es cs, CopyRun env.copy.Dup m (copied_header env.new m fields) es cs m' n₁ ∧
      m'.containers.length = m.containers.length ∧
      (∃ read, sd_bus_message_peek_type read true m' = (.ok none, m')) ∧
      sd_bus_message_seal env.seal_ none m.serial n₁ = (.ok ⟨⟩, n) := by
  obtain ⟨n₀, hnew, h⟩ := bind_eq_ok.mp h
  dsimp only at h
  split at h
  · next s hrun =>
    cases h
    obtain ⟨⟨⟩, s1, hheader, hrun⟩ := of_bind_ok hrun
    obtain ⟨hheader, hsource⟩ := on_message_ok hheader
    obtain ⟨b, s2, hcopy, hrun⟩ := of_bind_ok hrun
    obtain ⟨es, cs, hsteps, hdepth, hend⟩ := (copy_ok fuel).1 _ _ _ _ hcopy
    obtain ⟨fields, hn⟩ := remarshal_new_ok hnew hheader
    rw [hsource, hn] at hsteps
    rw [hsource] at hdepth
    have hseal : on_message (sd_bus_message_seal env.seal_ none m.serial) s2 = (.ok ⟨⟩, s) := by
      by_cases hflag : m.flags &&& BUS_MESSAGE_NO_REPLY_EXPECTED = 0
      · rw [if_pos hflag] at hrun
        cases htimeout : env.timeout with
        | some e =>
          rw [htimeout] at hrun
          cases hrun
        | none =>
          rw [htimeout] at hrun
          exact hrun
      · rw [if_neg hflag] at hrun
        exact hrun
    exact ⟨fields, s2.m, s2.source, es, cs, hsteps, hdepth, hend, (on_message_ok hseal).1⟩
  · cases h
  · cases h

/-! ## Section 4: What is kept -/

/-- The message before anything of it was read. -/
def SdBusMessage.unread (m : SdBusMessage) : SdBusMessage :=
  { m with
    rindex := 0
    containers := []
    root_container := { m.root_container with index := 0, saved_index := 0 } }

/-- What a message that was received is like. -/
structure Parsed (m : SdBusMessage) : Prop where
  sealed : m.sealed = true
  enclosing : m.root_container.enclosing = 0
  begin : m.root_container.begin = 0
  signature : signature_is_valid m.root_container.signature true = true

/-- The header of `n` is that of `m`, in the byte order of the host. -/
structure SameHeader (m n : SdBusMessage) : Prop where
  endian : n.endian = BUS_NATIVE_ENDIAN
  type : n.type = m.type
  flags : n.flags = m.flags
  path : n.path = m.path
  interface : n.interface = m.interface
  member : n.member = m.member
  destination : n.destination = m.destination
  sender : n.sender = m.sender
  reply_cookie : n.reply_cookie = m.reply_cookie
  error_name : n.error_name = m.error_name

/-- The whole message is kept: a reader that starts at the beginning of both
    finds the same, but for descriptors that are copies. -/
structure Preserved (dup : Int → Int → Prop) (m n : SdBusMessage) : Prop where
  header : SameHeader m n
  signature : n.root_container.signature = m.root_container.signature
  values : ∃ fuel es es', (read_events fuel m.unread).1 = .ok es ∧
    (read_events fuel n.unread).1 = .ok es' ∧ List.Forall₂ (SameEvent dup) es es'

/-- The header is one that the copy can have: no error name; no flag but the
    three that are known, that for interactive authorization as on the bus, and
    on a signal that for no reply; no path, interface or member on a reply, and
    no reply cookie on what is none. -/
structure Fits (interactive : Bool) (m : SdBusMessage) : Prop where
  error_name : m.error_name = none
  known : m.flags &&& 0xf8 = 0
  interactive : m.flags &&& BUS_MESSAGE_ALLOW_INTERACTIVE_AUTHORIZATION =
    if interactive then BUS_MESSAGE_ALLOW_INTERACTIVE_AUTHORIZATION else 0
  no_reply : m.type = SD_BUS_MESSAGE_SIGNAL →
    m.flags &&& BUS_MESSAGE_NO_REPLY_EXPECTED = BUS_MESSAGE_NO_REPLY_EXPECTED
  names : is_reply m = true → m.path = none ∧ m.interface = none ∧ m.member = none
  cookie : is_reply m = false → m.reply_cookie = 0

theorem flags_kept (flags : UInt8) (interactive signal : Bool) :
    ((if interactive then 4 else 0) ||| (if signal then 1 else 0)) ||| (flags &&& 3) = flags ↔
      flags &&& 0xf8 = 0 ∧ flags &&& 4 = (if interactive then 4 else 0) ∧
        (signal = true → flags &&& 1 = 1) := by
  obtain ⟨⟨f⟩⟩ := flags
  revert f interactive signal
  decide +kernel

theorem copied_flags_kept (interactive : Bool) (m : SdBusMessage) :
    copied_flags interactive m = m.flags ↔ m.flags &&& 0xf8 = 0 ∧
      (m.flags &&& BUS_MESSAGE_ALLOW_INTERACTIVE_AUTHORIZATION =
        if interactive then BUS_MESSAGE_ALLOW_INTERACTIVE_AUTHORIZATION else 0) ∧
      (m.type = SD_BUS_MESSAGE_SIGNAL →
        m.flags &&& BUS_MESSAGE_NO_REPLY_EXPECTED = BUS_MESSAGE_NO_REPLY_EXPECTED) := by
  have h := flags_kept m.flags interactive (decide (m.type = SD_BUS_MESSAGE_SIGNAL))
  simp only [decide_eq_true_eq] at h
  exact h

/-- The header of the copy is that of the message if and only if it fits. -/
theorem copied_header_same (env : NewEnv) (m : SdBusMessage) (fields : List UInt8) :
    SameHeader m (copied_header env m fields) ↔ Fits env.interactive m := by
  have hflags := copied_flags_kept env.interactive m
  constructor
  · intro h
    have hpath : (if is_reply m = true then none else m.path) = m.path := h.path
    have hinterface : (if is_reply m = true then none else m.interface) = m.interface :=
      h.interface
    have hmember : (if is_reply m = true then none else m.member) = m.member := h.member
    have hcookie : (if is_reply m = true then m.reply_cookie else 0) = m.reply_cookie :=
      h.reply_cookie
    obtain ⟨hknown, hinteractive, hno_reply⟩ := hflags.mp h.flags
    refine ⟨h.error_name.symm, hknown, hinteractive, hno_reply, ?_, ?_⟩
    · intro hr
      rw [if_pos hr] at hpath hinterface hmember
      exact ⟨hpath.symm, hinterface.symm, hmember.symm⟩
    · intro hr
      rw [if_neg (by simp [hr])] at hcookie
      exact hcookie.symm
  · intro h
    refine ⟨rfl, rfl, hflags.mpr ⟨h.known, h.interactive, h.no_reply⟩, ?_, ?_, ?_, rfl, rfl, ?_,
      h.error_name.symm⟩
    · show (if is_reply m = true then none else m.path) = m.path
      split
      · next hr => exact (h.names hr).1.symm
      · rfl
    · show (if is_reply m = true then none else m.interface) = m.interface
      split
      · next hr => exact (h.names hr).2.1.symm
      · rfl
    · show (if is_reply m = true then none else m.member) = m.member
      split
      · next hr => exact (h.names hr).2.2.symm
      · rfl
    · show (if is_reply m = true then m.reply_cookie else 0) = m.reply_cookie
      split
      · rfl
      · next hr => exact (h.cookie (by simpa using hr)).symm

section unread

theorem unread_set_index (index rindex : Nat) (m : SdBusMessage) :
    (set_index index { m with rindex := rindex }).unread = m.unread := by
  unfold set_index update_last
  cases hc : m.containers with
  | nil =>
    split
    · rfl
    · rfl
  | cons c cs =>
    split
    · rfl
    · rfl

theorem unread_saved (m : SdBusMessage) : (saved_message m).unread = m.unread := by
  unfold saved_message update_last
  cases m.containers with
  | nil => rfl
  | cons c cs => rfl

/-- Reading moves nothing but the place of the reader. -/
theorem read_event_unread {e : MessageEvent} (h : read_event m = (.ok (some e), m')) :
    m'.unread = m.unread := by
  rcases read_event_cases h with ⟨t, q, v, -, hr⟩ | ⟨type, contents, -, ht, hs, ha, hr⟩ | ⟨-, hr⟩
  · obtain ⟨-, -, -, hm'⟩ := read_basic_ok hr
    rw [hm', unread_set_index]
  · obtain ⟨-, -, m₁, array_size, henter, hm'⟩ := enter_container_ok hs ha ht hr
    obtain ⟨k, -, -, -, -, -, hm1⟩ := bus_message_enter_ok henter
    have hsame : m'.unread = m₁.unread := by
      rw [hm']
      rfl
    rw [hsame, hm1, unread_set_index, unread_saved]
  · obtain ⟨c, rest, -, -, hm'⟩ := exit_container_ok hr
    rw [hm']
    rfl

variable {f : Fields}

variable {i i' : Nat} {q : BodyRange}

theorem message_peek_fields_size {align nbytes : Nat}
    (h : message_peek_fields f align nbytes i = (.ok q, i')) : q.size = nbytes := by
  unfold message_peek_fields peek_part at h
  rw [get_bind_run] at h
  split_ifs at h
  · cases h
  · cases h
  · cases h
  · cases h
    rfl

/-- The parser hands out signatures that are valid. -/
theorem message_peek_field_signature_ok {s : List UInt8}
    (h : message_peek_field_signature f i = (.ok s, i')) : signature_is_valid s true = true := by
  obtain ⟨q1, i1, -, h⟩ := of_bind_ok h
  obtain ⟨-, h⟩ := of_check_bind_ok h
  obtain ⟨q2, i2, hq2, h⟩ := of_bind_ok h
  obtain ⟨hv, h⟩ := of_check_bind_ok h
  cases h
  have hsize := message_peek_fields_size hq2
  unfold validate_signature validate validate_nul at hv
  simp only [Bool.and_eq_true, beq_iff_eq] at hv
  obtain ⟨⟨-, hnul⟩, hvalid⟩ := hv
  -- the NUL is the last of its bytes
  have hlt := (List.getElem?_eq_some_iff.mp hnul).1
  have hle : (f.bytes q2).length ≤ q2.size := List.length_take_le _ _
  have hlen : (f.bytes q2).length - 1 = f.bswap q1 := by omega
  rw [dropLast_eq_take, hlen]
  exact hvalid

/-- If the parsed fields have a signature, it is valid. -/
def ParsedFields.SignatureValid (p : ParsedFields) : Prop :=
  ∀ s, p.signature = some s → signature_is_valid s true = true

/-- Where the call succeeds, its result is one of these. -/
def Returns {σ α : Type} (x : Call σ α) (P : α → Prop) : Prop :=
  ∀ s a s', x s = (.ok a, s') → P a

section returns
variable {σ α β : Type} {P : α → Prop}

theorem Returns.pure {a : α} (h : P a) : Returns (pure a : Call σ α) P := by
  intro s b s' hx
  cases hx
  exact h

theorem Returns.bind {x : Call σ β} {f : β → Call σ α} (h : ∀ b, Returns (f b) P) :
    Returns (x >>= f) P := by
  intro s a s' hx
  obtain ⟨b, s1, -, hf⟩ := of_bind_ok hx
  exact h b s1 a s' hf

theorem Returns.ite {c : Prop} [Decidable c] {x y : Call σ α} (hx : Returns x P)
    (hy : Returns y P) : Returns (if c then x else y) P := by
  split
  · exact hx
  · exact hy

end returns

variable {p : ParsedFields}

theorem parse_field_signature (f : Fields) (mem : Bool) (type : UInt8) (sig : List UInt8)
    (hp : p.SignatureValid) :
    Returns (parse_field f mem type sig p) ParsedFields.SignatureValid := by
  apply Returns.ite
  · intro s a s' h
    cases h
  iterate 6
    apply Returns.ite
    · exact .bind fun s => .pure hp
  apply Returns.ite
  · apply Returns.bind
    intro _
    apply Returns.bind
    intro _ i p' i' h
    obtain ⟨s, i1, hs, h⟩ := of_bind_ok h
    obtain ⟨-, h⟩ := of_check_bind_ok h
    cases h
    intro s' hs'
    cases hs'
    exact message_peek_field_signature_ok hs
  apply Returns.ite
  · exact .bind fun _ => .bind fun _ => .bind fun n => .bind fun _ => .pure hp
  apply Returns.ite
  · exact .bind fun _ => .bind fun _ => .bind fun n => .pure hp
  · exact .bind fun _ => .pure hp

theorem parse_fields_loop_signature {mem : Bool} {fuel : Nat} {p' : ParsedFields}
    (hp : p.SignatureValid) (h : parse_fields_loop f mem fuel p i = (.ok p', i')) :
    p'.SignatureValid := by
  induction fuel generalizing p i with
  | zero =>
    unfold parse_fields_loop at h
    rw [get_bind_run] at h
    split_ifs at h
    · cases h
    · cases h
      exact hp
  | succ fuel ih =>
    unfold parse_fields_loop at h
    rw [get_bind_run] at h
    split_ifs at h
    · obtain ⟨p1, i1, hround, h⟩ := of_bind_ok h
      obtain ⟨q, i2, -, hround⟩ := of_bind_ok hround
      obtain ⟨sig, i3, -, hround⟩ := of_bind_ok hround
      exact ih (parse_field_signature f mem _ sig hp i3 p1 i1 hround) h
    · cases h
      exact hp

variable {got_ctrunc : Bool}

theorem message_parse_fields_signature {mem : Bool} {type : UInt8} {n_fds : Nat}
    (h : message_parse_fields f mem type n_fds got_ctrunc = .ok p) : p.SignatureValid := by
  obtain ⟨p1, hloop, h⟩ := bind_eq_ok.mp h
  have hnone : ParsedFields.none.SignatureValid := by
    intro s hs
    cases hs
  have hpair : parse_fields_loop f mem f.fields.length .none 0 =
      (.ok p1, (parse_fields_loop f mem f.fields.length .none 0).2) := Prod.ext hloop rfl
  have hp := parse_fields_loop_signature hnone hpair
  split_ifs at h
  cases h
  exact hp

/-- A basic value that is read is what the reader sees next. -/
theorem read_event_of_read_basic {t : UInt8} {v : ReadValue}
    (h : sd_bus_message_read_basic t m = (.ok (some (q, v)), m')) :
    read_event m = (.ok (some (.basic t v)), m') := by
  obtain ⟨hb, hcurrent, -, -⟩ := read_basic_ok h
  have hnone : message_end_of_signature m = false := by
    unfold message_end_of_signature
    rw [hcurrent]
    rfl
  have hdrop : ∃ s, m.last_container.signature.drop m.last_container.index = t :: s := by
    obtain ⟨s, hs⟩ := current_prefix hcurrent
    exact ⟨s, hs.symm⟩
  obtain ⟨s, hdrop⟩ := hdrop
  have hpeek : sd_bus_message_peek_type .all true m = (.ok (some ⟨t, none, none⟩), m) := by
    obtain ⟨hsealed, h⟩ := of_check_bind_ok h
    obtain ⟨-, h⟩ := of_check_bind_ok h
    obtain ⟨-, h⟩ := of_check_bind_ok h
    obtain ⟨b, m₁, ha, h⟩ := of_bind_ok h
    have hstate := message_end_of_array_state m m.rindex
    rw [ha] at hstate
    obtain rfl : m₁ = m := hstate
    cases b with
    | true => cases h
    | false =>
      unfold sd_bus_message_peek_type
      rw [get_bind_run, check_bind_run_true hsealed, hnone, if_neg (by decide),
        bind_run_ok ha, if_neg (by decide), hdrop]
      dsimp only
      rw [if_pos hb]
      rfl
  exact read_event_of_basic hpeek h

/-- What is received is a message of which nothing was read, or the first
    string of an error. -/
theorem bus_message_from_malloc_parsed {env : ParseEnv} {buffer : List UInt8} {fds : List Int}
    (h : bus_message_from_malloc env buffer fds got_ctrunc = .ok m) :
    Parsed m ∧ ∃ es, Reads m.unread es m := by
  obtain ⟨raw, -, h⟩ := bind_eq_ok.mp h
  obtain ⟨p, hp, h⟩ := bind_eq_ok.mp h
  have hsignature : signature_is_valid (p.signature.getD []) true = true := by
    have hvalid := message_parse_fields_signature hp
    cases hs : p.signature with
    | none => rfl
    | some s => exact hvalid s hs
  have hparsed : ∀ r, r.unread = raw.message p fds → Parsed r := by
    intro r hr
    have hsealed := congrArg sealed hr
    have hroot := congrArg root_container hr
    have henclosing := congrArg BusMessageContainer.enclosing hroot
    have hbegin := congrArg BusMessageContainer.begin hroot
    have hsig := congrArg BusMessageContainer.signature hroot
    refine ⟨hsealed, henclosing, hbegin, ?_⟩
    have hsig' : r.root_container.signature = p.signature.getD [] := hsig
    rw [hsig']
    exact hsignature
  have hstart : (raw.message p fds).unread = raw.message p fds := rfl
  by_cases herror : raw.type = SD_BUS_MESSAGE_METHOD_ERROR
  · have hm : (sd_bus_message_read_basic SD_BUS_TYPE_STRING (raw.message p fds)).2 = m := by
      rw [if_pos herror] at h
      match hr : sd_bus_message_read_basic SD_BUS_TYPE_STRING (raw.message p fds) with
      | (.ok o, r) =>
        rw [hr] at h
        cases h
        rfl
      | (.err e, r) =>
        rw [hr] at h
        cases h
        rfl
      | (.abort, r) =>
        rw [hr] at h
        cases h
    rcases sd_bus_message_read_basic_state (raw.message p fds) SD_BUS_TYPE_STRING with
      hsame | ⟨q, v, hread⟩
    · rw [hm] at hsame
      rw [hsame]
      exact ⟨hparsed _ hstart, [], .done _⟩
    · have hnext := read_event_of_read_basic hread
      rw [hread] at hm
      dsimp only at hm
      rw [hm] at hnext
      have hun := (read_event_unread hnext).trans hstart
      refine ⟨hparsed m hun, [.basic SD_BUS_TYPE_STRING v], ?_⟩
      rw [hun]
      exact .single hnext
  · rw [if_neg herror] at h
    cases h
    exact ⟨hparsed _ hstart, [], .done _⟩

end unread

/-- Neither writing nor sealing changes the header. -/
theorem same_header_of_head (hhead : n₁.head = n₀.head)
    (hn : ∃ fields cookie root, n = { n₁ with
      fields := fields, serial := cookie, sealed := true, root_container := root }) :
    SameHeader m n ↔ SameHeader m n₀ := by
  obtain ⟨fields, cookie, root, rfl⟩ := hn
  have hendian := congrArg endian hhead
  have htype := congrArg type hhead
  have hflags := congrArg flags hhead
  have hpath := congrArg path hhead
  have hinterface := congrArg interface hhead
  have hmember := congrArg member hhead
  have hdestination := congrArg destination hhead
  have hsender := congrArg sender hhead
  have hcookie := congrArg reply_cookie hhead
  have herror := congrArg error_name hhead
  constructor
  · intro h
    exact ⟨hendian ▸ h.endian, htype ▸ h.type, hflags ▸ h.flags, hpath ▸ h.path,
      hinterface ▸ h.interface, hmember ▸ h.member, hdestination ▸ h.destination,
      hsender ▸ h.sender, hcookie ▸ h.reply_cookie, herror ▸ h.error_name⟩
  · intro h
    exact ⟨hendian.trans h.endian, htype.trans h.type, hflags.trans h.flags, hpath.trans h.path,
      hinterface.trans h.interface, hmember.trans h.member, hdestination.trans h.destination,
      hsender.trans h.sender, hcookie.trans h.reply_cookie, herror.trans h.error_name⟩

/-! ## Section 5: When the message is kept -/

section kept
variable {dup : Int → Int → Prop} {es es' es₁ : List MessageEvent} {d : Draft}

variable {fuel : Nat}

/-- What was read is the beginning of all that can be read. -/
theorem Reads.beginning (h : Reads m es m') (hall : (Bus.read_events fuel m).1 = .ok es') :
    es <+: es' := by
  induction h generalizing fuel es' with
  | done m => exact nil_prefix
  | @step m m₁ m2 e es he hrest ih =>
    cases fuel with
    | zero => cases hall
    | succ fuel =>
      rw [Bus.read_events, bind_run_ok he] at hall
      dsimp only at hall
      cases hr : Bus.read_events fuel m₁ with
      | mk o m3 =>
        rw [bind_run, hr] at hall
        cases o with
        | ok es'' =>
          cases hall
          rw [cons_prefix_cons]
          exact ⟨rfl, ih (congrArg Prod.fst hr)⟩
        | err e => cases hall
        | abort => cases hall

/-- It does not matter how often the reader may look. -/
theorem read_events_unique {fuel' : Nat} (h : (read_events fuel m).1 = .ok es)
    (h' : (read_events fuel' m).1 = .ok es') : es = es' := by
  induction fuel generalizing m fuel' es es' with
  | zero => cases h
  | succ fuel ih =>
    cases fuel' with
    | zero => cases h'
    | succ fuel' =>
      unfold read_events at h h'
      rw [bind_run] at h h'
      rcases hr : read_event m with ⟨(_ | e) | e | _, m₁⟩
      · rw [hr] at h h'
        cases h
        cases h'
        rfl
      · rw [hr] at h h'
        dsimp only at h h'
        rw [bind_run] at h h'
        rcases hx : read_events fuel m₁ with ⟨es2 | e | _, m2⟩
        · rcases hy : read_events fuel' m₁ with ⟨es3 | e | _, m3⟩
          · rw [hx] at h
            rw [hy] at h'
            cases h
            cases h'
            rw [ih (congrArg Prod.fst hx) (congrArg Prod.fst hy)]
          · rw [hy] at h'
            cases h'
          · rw [hy] at h'
            cases h'
        · rw [hx] at h
          cases h
        · rw [hx] at h
          cases h
      · rw [hr] at h
        cases h
      · rw [hr] at h
        cases h

theorem CopyRun.length {cs : List WriteCall} (h : CopyRun dup m n es cs m' n') :
    es.length = cs.length := by
  induction h with
  | done m n => rfl
  | step _ _ _ _ ih => rw [length_cons, length_cons, ih]

theorem Reads.reading (h : Reads m es m') (hr : Reading m.body m) : Reading m'.body m' := by
  induction h with
  | done m => exact hr
  | step he _ ih => exact ih (read_event_reading hr he).1

theorem Parsed.reading (h : Parsed m) : Reading m.unread.body m.unread :=
  ⟨h.sealed, rfl, zero_le _, zero_le _, .singleton _, fun c hc => (by cases hc),
    h.enclosing, h.begin⟩

/-- What was written is what a reader of the sealed copy finds. -/
theorem sealed_events {fields : List UInt8} {cookie : Nat} (hw : Written n₁.fds es n₁ d)
    (hc : n₁.containers = []) (hendian : n₁.endian = BUS_NATIVE_ENDIAN)
    (hn : n = { n₁ with
      fields := fields, serial := cookie, sealed := true
      root_container := { n₁.root_container with end_ := n₁.body.length, index := 0 } })
    (hsig : signature_is_valid n.root_container.signature true = true) :
    (read_events (es.length + 1) n.unread).1 = .ok es := by
  have henclosing : n₁.root_container.enclosing = 0 := by
    have hroot := hw.stacked
    unfold Stacked at hroot
    rw [hc] at hroot
    cases hf : d.frames with
    | nil =>
      rw [hf] at hroot
      exact hroot.enclosing
    | cons f fs =>
      rw [hf] at hroot
      exact hroot.elim
  have hlen : n.root_container.signature.length ≤ SD_BUS_MAXIMUM_SIGNATURE_LENGTH := by
    unfold signature_is_valid at hsig
    simp only [Bool.and_eq_true, decide_eq_true_eq] at hsig
    exact hsig.2
  have hroot : n.unread.root_container.enclosing = 0 := by
    rw [hn]
    exact henclosing
  have hsame : n.unread.sealed = true ∧ n.unread.endian = BUS_NATIVE_ENDIAN ∧
      n.unread.fds = n₁.fds ∧ n.unread.body = n₁.body ∧
      n.unread.root_container.signature = n₁.root_container.signature := by
    rw [hn]
    exact ⟨rfl, hendian, rfl, rfl, rfl⟩
  obtain ⟨hsealed, hendian', hfds, hbody, hsignature⟩ := hsame
  obtain ⟨r', hr', -, -⟩ := hw.read_events (r := n.unread) hc hsealed rfl hroot rfl rfl hendian'
    hfds hbody hsignature hsig hlen (lt_succ_self _)
  rw [hr']

variable {env : RemarshalEnv}

/-- A message of which nothing was read is kept if it fits. -/
theorem remarshal_keeps (hp : Parsed m) (hm : m.unread = m) (hfits : Fits env.new.interactive m)
    (h : bus_message_remarshal env fuel m = .ok n) : Preserved env.copy.Dup m n := by
  obtain ⟨fields, n₁, m', es, cs, hrun, hdepth, ⟨read, hpeek⟩, hseal⟩ := bus_message_remarshal_ok h
  obtain ⟨hc, -, fields', hn⟩ := sd_bus_message_seal_frame hseal
  have hhead := (write_all_frame hrun.writes).2
  have hclosed : m.containers = [] := by
    rw [← hm]
    rfl
  have hindex : m.root_container.index = 0 := by
    rw [← hm]
    rfl
  have hrindex : m.rindex = 0 := by
    rw [← hm]
    rfl
  have hw : Written n₁.fds [] (copied_header env.new m fields) ⟨[], []⟩ :=
    Written.fresh _ rfl rfl rfl rfl
  have hl : Lock m.root_container.signature m ⟨[], []⟩ := by
    refine ⟨hrindex.symm, ?_, hp.enclosing, rfl, ?_⟩
    · rw [hclosed]
      trivial
    · rw [hindex]
      rfl
  obtain ⟨hsame, d, hw1, hl1⟩ := hrun.locked hw hl (prefix_refl _)
  -- the reader is at the end of the message
  have hclosed' : m'.containers = [] := by
    rw [← length_eq_zero_iff, hdepth, hclosed]
    rfl
  obtain ⟨hend, hnone⟩ := read_event_of_end hclosed' hl1.enclosing hpeek
  have hsignature : n₁.root_container.signature = m.root_container.signature := by
    have hlast : m'.last_container = m'.root_container := by
      unfold last_container
      rw [hclosed']
      rfl
    unfold message_end_of_signature BusMessageContainer.current at hend
    rw [hlast, hl1.signature, Option.isNone_iff_eq_none, List.getElem?_eq_none_iff] at hend
    rw [hw1.root_signature, hl1.types, take_of_length_le hend]
  have hsignature' : n.root_container.signature = m.root_container.signature := by
    rw [hn]
    exact hsignature
  have hendian : n₁.endian = BUS_NATIVE_ENDIAN := congrArg endian hhead
  refine ⟨?_, hsignature', ?_⟩
  · rw [same_header_of_head hhead ⟨fields', _, _, hn⟩, copied_header_same]
    exact hfits
  · refine ⟨es.length + 1, es, cs.map event, ?_, ?_, hsame⟩
    · rw [hm, hrun.reads.read_events hnone (lt_succ_self _)]
    · have hlength := hsame.length_eq
      rw [hlength]
      apply sealed_events hw1 hc hendian hn
      rw [hsignature']
      exact hp.signature

/-- If anything of the message was read, it is not in the copy. -/
theorem remarshal_from_start (hp : Parsed m) (hreads : Reads m.unread es₁ m)
    (hsize : m.body.length ≤ BUS_ARRAY_MAX_SIZE) (h : bus_message_remarshal env fuel m = .ok n)
    (hkept : Preserved env.copy.Dup m n) : es₁ = [] := by
  obtain ⟨fields, n₁, m', es2, cs, hrun, -, -, hseal⟩ := bus_message_remarshal_ok h
  obtain ⟨hc, -, fields', hn⟩ := sd_bus_message_seal_frame hseal
  have hhead := (write_all_frame hrun.writes).2
  have hendian : n₁.endian = BUS_NATIVE_ENDIAN := congrArg endian hhead
  have hw : Written n₁.fds [] (copied_header env.new m fields) ⟨[], []⟩ :=
    Written.fresh _ rfl rfl rfl rfl
  have hbehind : Behind m ⟨[], []⟩ m.containers.length :=
    ⟨hreads.reading hp.reading, hsize, zero_le _, rfl⟩
  obtain ⟨d, hw1⟩ := hrun.behind hw hbehind (prefix_refl _)
  rw [nil_append] at hw1
  obtain ⟨fuel', all, all', hall, hall', hsame⟩ := hkept.values
  have hsig : signature_is_valid n.root_container.signature true = true := by
    rw [hkept.signature]
    exact hp.signature
  -- what is found in the copy is what was copied, and so shorter
  have hcopied := read_events_unique hall' (sealed_events hw1 hc hendian hn hsig)
  have hprefix := (hreads.append hrun.reads).beginning hall
  have h1 := hprefix.length_le
  have h2 := hsame.length_eq
  have h3 := hrun.length
  rw [hcopied, length_map] at h2
  rw [length_append] at h1
  exact length_eq_zero_iff.mp (by omega)

/-- The header of the copy is that of the message only if it fits. -/
theorem remarshal_fits (h : bus_message_remarshal env fuel m = .ok n) (hkept : SameHeader m n) :
    Fits env.new.interactive m := by
  obtain ⟨fields, n₁, m', es, cs, hrun, -, -, hseal⟩ := bus_message_remarshal_ok h
  obtain ⟨-, -, fields', hn⟩ := sd_bus_message_seal_frame hseal
  rw [same_header_of_head (write_all_frame hrun.writes).2 ⟨fields', _, _, hn⟩,
    copied_header_same] at hkept
  exact hkept

/-- A message that is replaced is kept if nothing of it was read and its header
    fits, and else it is not. `es₁` is what was read of it before. -/
theorem remarshal_preserves {env : RemarshalEnv} {fuel : Nat} (hp : Parsed m)
    (hreads : Reads m.unread es₁ m) (h : bus_message_remarshal env fuel m = .ok n) :
    (es₁ = [] ∧ Fits env.new.interactive m → Preserved env.copy.Dup m n) ∧
    (Preserved env.copy.Dup m n → Fits env.new.interactive m ∧
      (m.body.length ≤ BUS_ARRAY_MAX_SIZE → es₁ = [])) := by
  constructor
  · rintro ⟨rfl, hfits⟩
    have hm : m.unread = m := by
      generalize m.unread = m₀ at hreads
      cases hreads
      rfl
    exact remarshal_keeps hp hm hfits h
  · intro hkept
    refine ⟨remarshal_fits h hkept.header, ?_⟩
    intro hsize
    exact remarshal_from_start hp hreads hsize h hkept

end kept

def example_remarshal_env : RemarshalEnv where
  new := example_new_env
  copy := ⟨.all, fun _ => example_new_env.append, fun _ _ => .ok 3⟩
  timeout := none
  seal_ := ⟨true, true⟩

/-- The message that was received, where one was. -/
def received_message (buffer : List UInt8) : SdBusMessage :=
  made_message (bus_message_from_malloc ⟨true, true⟩ buffer [] false)

def remarshalled_message (m : SdBusMessage) : SdBusMessage :=
  made_message (bus_message_remarshal example_remarshal_env 8 m)

/-- A signal with the number seven, with the high bytes first. -/
def foreign_signal : List UInt8 :=
  [0x42, 4, 1, 1, 0, 0, 0, 4, 0, 0, 0, 1, 0, 0, 0, 55] ++
    ([1, 1] ++ ascii "o" ++ [0, 0, 0, 0, 2] ++ ascii "/o" ++ [0, 0, 0, 0, 0, 0]) ++
    ([2, 1] ++ ascii "s" ++ [0, 0, 0, 0, 3] ++ ascii "a.b" ++ [0, 0, 0, 0, 0]) ++
    ([3, 1] ++ ascii "s" ++ [0, 0, 0, 0, 1] ++ ascii "M" ++ [0, 0, 0, 0, 0, 0, 0]) ++
    ([8, 1] ++ ascii "g" ++ [0, 1] ++ ascii "u" ++ [0, 0]) ++ [0, 0, 0, 7]

theorem remarshal_preserves_example :
    bus_message_remarshal example_remarshal_env 8 (received_message foreign_signal) =
        .ok (remarshalled_message (received_message foreign_signal)) ∧
      Preserved example_remarshal_env.copy.Dup (received_message foreign_signal)
        (remarshalled_message (received_message foreign_signal)) := by
  have hok : bus_message_remarshal example_remarshal_env 8 (received_message foreign_signal) =
      .ok (remarshalled_message (received_message foreign_signal)) := by decide +kernel
  have hreceived : bus_message_from_malloc ⟨true, true⟩ foreign_signal [] false =
      .ok (received_message foreign_signal) := by decide +kernel
  have hparsed := (bus_message_from_malloc_parsed hreceived).1
  have hstart : (received_message foreign_signal).unread = received_message foreign_signal := by
    decide +kernel
  have hreads : Reads (received_message foreign_signal).unread []
      (received_message foreign_signal) := by
    rw [hstart]
    exact .done _
  have hfits : Fits false (received_message foreign_signal) :=
    ⟨by decide +kernel, by decide +kernel, by decide +kernel, by decide +kernel,
      by decide +kernel, by decide +kernel⟩
  exact ⟨hok, (remarshal_preserves hparsed hreads hok).1 ⟨rfl, hfits⟩⟩

/-- An error `a.b` with a text, with the high bytes first. -/
def foreign_error : List UInt8 :=
  [0x42, 3, 1, 1, 0, 0, 0, 7, 0, 0, 0, 1, 0, 0, 0, 31] ++
    ([5, 1] ++ ascii "u" ++ [0, 0, 0, 0, 7]) ++
    ([4, 1] ++ ascii "s" ++ [0, 0, 0, 0, 3] ++ ascii "a.b" ++ [0, 0, 0, 0, 0]) ++
    ([8, 1] ++ ascii "g" ++ [0, 1] ++ ascii "s" ++ [0, 0]) ++
    ([0, 0, 0, 2] ++ ascii "hi" ++ [0])

/-- The error that is received is replaced by one without its name and without
    its text, which the parser has read. -/
theorem foreign_error_lost :
    bus_message_from_malloc ⟨true, true⟩ foreign_error [] false =
        .ok (received_message foreign_error) ∧
      bus_message_remarshal example_remarshal_env 8 (received_message foreign_error) =
        .ok (remarshalled_message (received_message foreign_error)) ∧
      (received_message foreign_error).error_name = some (ascii "a.b") ∧
      (remarshalled_message (received_message foreign_error)).error_name = none ∧
      (received_message foreign_error).root_container.signature = ascii "s" ∧
      (remarshalled_message (received_message foreign_error)).root_container.signature = [] ∧
      ¬ Preserved example_remarshal_env.copy.Dup (received_message foreign_error)
        (remarshalled_message (received_message foreign_error)) := by
  have hname : (received_message foreign_error).error_name = some (ascii "a.b") := by
    decide +kernel
  have hlost : (remarshalled_message (received_message foreign_error)).error_name = none := by
    decide +kernel
  refine ⟨by decide +kernel, by decide +kernel, hname, hlost, by decide +kernel, by decide +kernel,
    ?_⟩
  intro hkept
  have hsame := hkept.header.error_name
  rw [hname, hlost] at hsame
  cases hsame

end SdCompat.Bus
