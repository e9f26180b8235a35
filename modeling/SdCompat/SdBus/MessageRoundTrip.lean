import SdCompat.SdBus.HeaderWrite
import SdCompat.SdBus.MessageReadSafe

/-! # What was written is read

    A message is made, its body is written, and it is sealed. The bytes that
    are sent are parsed to a message with the same header, and its reader sees
    what the writer put into it.
-/

open Bytes

namespace SdCompat.Bus

open Call List SdBusMessage BasicValue

variable {m m' m₀ m₁ : SdBusMessage} {ws : List HeaderField} {p : ParsedFields}

/-! ## Section 1: Sealing -/

/-- What the header fields of a sealed message say, by what it says itself. -/
def SdBusMessage.declared (m : SdBusMessage) : ParsedFields where
  path := m.path
  interface := m.interface
  member := m.member
  error_name := m.error_name
  destination := m.destination
  sender := m.sender
  signature := if m.root_container.signature = [] then none else some m.root_container.signature
  reply_cookie := m.reply_cookie
  n_unix_fds_declared := if m.fds.length = 0 then none else some m.fds.length

variable {env : SealEnv}

/-- The signature comes behind the other fields, if there is one. -/
theorem append_signature_ok {s : List UInt8} (hs : FieldsSay m.fields ws p)
    (hnone : p.signature = none) (hv : signature_is_valid s true = true) (hlen : s.length < 255)
    (hrun : append_signature env s m = (.ok ⟨⟩, m')) :
    (∃ ws', FieldsSay m'.fields ws' { p with signature := if s = [] then none else some s } ∧
      ws'.length ≤ ws.length + 1) ∧ m' = { m with fields := m'.fields } := by
  unfold append_signature at hrun
  by_cases hnil : s = []
  · rw [if_pos hnil] at hrun
    cases hrun
    rw [if_pos hnil, ← hnone]
    exact ⟨⟨ws, hs, by omega⟩, rfl⟩
  · rw [if_neg hnil] at hrun
    obtain ⟨-, hrun⟩ := of_check_bind_ok hrun
    have h0 : 0 ∉ s := by
      obtain ⟨ts, -, rfl⟩ := types_of_valid hv
      exact Ty.zero_not_mem_sigs ts
    have hvalid : (signature s).Valid := ⟨h0, hv⟩
    have hmean : (⟨BUS_MESSAGE_HEADER_SIGNATURE, .basic (.signature s)⟩ :
        HeaderField).meaning true p = .ok { p with signature := some s } := by
      have hunfold : (⟨BUS_MESSAGE_HEADER_SIGNATURE, .basic (.signature s)⟩ :
          HeaderField).meaning true p =
            if p.signature.isSome || s.length = 0xff then .err .EBADMSG
            else .ok { p with signature := some s } := rfl
      rw [hunfold, hnone]
      simp
      omega
    have hsize : ((signature s).encode BUS_NATIVE_ENDIAN).length ≤ 0x10000 + 32 := by
      unfold encode
      simp only [length_append, length_ofNat, length_singleton]
      omega
    have hal : (signature s).type.align ∣ 4 := one_dvd 4
    obtain ⟨hsay, hsame⟩ := hs.append hal hvalid (by decide) hmean hsize hrun
    rw [if_neg hnil]
    exact ⟨⟨_, hsay, by simp⟩, hsame⟩

/-- The number of descriptors comes last, if there are any. -/
theorem append_unix_fds_ok {n_fds : Nat} (hs : FieldsSay m.fields ws p)
    (hnone : p.n_unix_fds_declared = none) (hn : n_fds ≤ 0xffffffff)
    (hrun : append_unix_fds env n_fds m = (.ok ⟨⟩, m')) :
    (∃ ws', FieldsSay m'.fields ws'
        { p with n_unix_fds_declared := if n_fds = 0 then none else some n_fds } ∧
      ws'.length ≤ ws.length + 1) ∧ m' = { m with fields := m'.fields } := by
  unfold append_unix_fds at hrun
  by_cases hzero : n_fds = 0
  · rw [if_pos hzero] at hrun
    cases hrun
    rw [if_pos hzero, ← hnone]
    exact ⟨⟨ws, hs, by omega⟩, rfl⟩
  · rw [if_neg hzero] at hrun
    have hvalid : (fixed .uint32 n_fds).Valid := by
      show n_fds < 256 ^ 4
      omega
    have hmean : (⟨BUS_MESSAGE_HEADER_UNIX_FDS, .basic (.fixed .uint32 n_fds)⟩ :
        HeaderField).meaning true p = .ok { p with n_unix_fds_declared := some n_fds } := by
      have hunfold : (⟨BUS_MESSAGE_HEADER_UNIX_FDS, .basic (.fixed .uint32 n_fds)⟩ :
          HeaderField).meaning true p =
            (if p.n_unix_fds_declared.isSome then .err Errno.EBADMSG else .ok n_fds) >>= fun n =>
              .ok { p with n_unix_fds_declared := some n } := rfl
      rw [hunfold, hnone]
      rfl
    have hsize : ((fixed .uint32 n_fds).encode BUS_NATIVE_ENDIAN).length ≤
        0x10000 + 32 := by
      unfold encode
      rw [length_ofNat]
      decide
    have hal : (fixed .uint32 n_fds).type.align ∣ 4 := Nat.dvd_refl 4
    obtain ⟨hsay, hsame⟩ := hs.append hal hvalid (by decide) hmean hsize hrun
    rw [if_neg hzero]
    exact ⟨⟨_, hsay, by simp⟩, hsame⟩

/-- A sealed message: its fields are complete. -/
theorem sd_bus_message_seal_ok {enforced : Option (List UInt8)} {cookie : Nat} (hm : Headed m ws p)
    (hsig : signature_is_valid m.root_container.signature true = true)
    (hlen : m.root_container.signature.length < 255) (hn : m.fds.length ≤ 0xffffffff)
    (hrun : sd_bus_message_seal env enforced cookie m = (.ok ⟨⟩, m')) :
    (∃ ws', FieldsSay m'.fields ws' m'.declared ∧ ws'.length ≤ ws.length + 2) ∧
    m.containers = [] ∧ cookie ≤ 0xffffffff ∧
    m' = { m with
      fields := m'.fields, serial := cookie, sealed := true
      root_container := { m.root_container with end_ := m.body.length, index := 0 } } := by
  unfold sd_bus_message_seal at hrun
  obtain ⟨-, hrun⟩ := of_check_bind_ok hrun
  obtain ⟨hclosed, hrun⟩ := of_check_bind_ok hrun
  obtain ⟨-, hrun⟩ := of_check_bind_ok hrun
  obtain ⟨hcookie, hrun⟩ := of_check_bind_ok hrun
  obtain ⟨-, hrun⟩ := of_check_bind_ok hrun
  obtain ⟨⟨⟩, m2, h2, hrun⟩ := of_bind_ok hrun
  obtain ⟨⟨⟩, m3, h3, hrun⟩ := of_bind_ok hrun
  cases hrun
  obtain ⟨⟨ws2, hs2, hlen2⟩, hsame2⟩ :=
    append_signature_ok hm.fields hm.same.signature hsig hlen h2
  obtain ⟨⟨ws3, hs3, hlen3⟩, hsame3⟩ := append_unix_fds_ok hs2 hm.same.unix_fds hn h3
  have hall : m3 = { m with fields := m3.fields } := by
    rw [hsame3]
    rw [hsame2]
  refine ⟨⟨ws3, ?_, by omega⟩, isEmpty_iff.mp hclosed, of_decide_eq_true hcookie, ?_⟩
  · have hp : ({ p with
        signature := if m.root_container.signature = [] then none
          else some m.root_container.signature
        n_unix_fds_declared := if m.fds.length = 0 then none else some m.fds.length } :
          ParsedFields) = m.declared := by
      have hs := hm.same
      unfold declared
      rw [hs.path, hs.interface, hs.member, hs.error_name, hs.destination, hs.sender,
        hs.reply_cookie]
    have hdeclared : ({ m3 with
        serial := cookie, sealed := true
        root_container := { m3.root_container with end_ := m3.body.length, index := 0 } } :
          SdBusMessage).declared = m.declared := by
      rw [hall]
      rfl
    rw [hdeclared, ← hp]
    exact hs3
  · show ({ m3 with
      serial := cookie
      root_container := { m3.root_container with end_ := m3.body.length, index := 0 }
      sealed := true } : SdBusMessage) = _
    rw [hall]

/-! ## Section 2: Accepting what is sent -/

/-- What comes behind the first four bytes. -/
def SdBusMessage.serialized_rest (m : SdBusMessage) : List UInt8 :=
  in_host_order 4 m.body.length ++ (in_host_order 4 m.serial ++ (in_host_order 4 m.fields.length ++
    (m.fields ++ (zeroes m.fields.length 8 ++ m.body))))

theorem serialized_eq (m : SdBusMessage) :
    m.serialized = 0x6c :: m.type :: m.flags :: 1 :: m.serialized_rest := by
  unfold serialized serialized_rest
  simp only [append_assoc, cons_append, nil_append]

theorem length_in_host_order (w n : Nat) : (in_host_order w n).length = w := length_ofNat _ w n

theorem length_serialized (m : SdBusMessage) :
    m.serialized.length = sizeof_header + alignTo m.fields.length 8 + m.body.length := by
  have hpad := add_padding (n := m.fields.length) (a := 8) (by decide)
  rw [serialized_eq]
  unfold serialized_rest
  simp only [length_cons, length_append, length_in_host_order, length_zeroes]
  unfold sizeof_header
  omega

/-- The parts of the header are found where they were put. -/
theorem message_from_header_serialized (ht : m.type ≠ 0) (hcookie : m.serial ≠ 0)
    (hserial : m.serial ≤ 0xffffffff) (hfields : m.fields.length ≤ 0xffffffff)
    (hbody : m.body.length ≤ 0xffffffff) : message_from_header true m.serialized =
      .ok ⟨BUS_NATIVE_ENDIAN, m.type, m.flags, m.serial, m.fields, m.body⟩ := by
  have hlen := length_serialized m
  have hat := At.self m.serialized_rest
  have hsize := hat.left.slice_eq
  have hnumber := hat.right.left.slice_eq
  have harray := hat.right.right.left.slice_eq
  have hcontent := hat.right.right.right.left.slice_eq
  simp only [length_in_host_order, Nat.reduceAdd] at hsize hnumber harray hcontent
  have hdrop : m.serialized_rest.drop (12 + alignTo m.fields.length 8) = m.body := by
    have hpad := add_padding (n := m.fields.length) (a := 8) (by decide)
    have hsplit : m.serialized_rest = (in_host_order 4 m.body.length ++ in_host_order 4 m.serial ++
        in_host_order 4 m.fields.length ++ m.fields ++ zeroes m.fields.length 8) ++ m.body := by
      unfold serialized_rest
      simp only [append_assoc]
    rw [hsplit, drop_left']
    simp only [length_append, length_in_host_order, length_zeroes]
    omega
  have h1 : toNat .little (in_host_order 4 m.body.length) = m.body.length :=
    toNat_ofNat .little (by omega)
  have h2 : toNat .little (in_host_order 4 m.serial) = m.serial := toNat_ofNat .little (by omega)
  have h3 : toNat .little (in_host_order 4 m.fields.length) = m.fields.length :=
    toNat_ofNat .little (by omega)
  rw [serialized_eq] at hlen ⊢
  unfold message_from_header
  dsimp only
  rw [if_neg (by omega), if_neg (by decide), if_neg ht]
  show (if !true then _ else _) = _
  rw [if_neg (by decide), hsize, hnumber, harray, h1, h2, h3, if_neg hcookie,
    if_neg (by omega), if_neg (by omega), hcontent, hdrop]
  rfl

/-- The number of descriptors that is declared is that of those that come. -/
theorem n_fds_valid_declared (m : SdBusMessage) :
    n_fds_valid m.fds.length (m.declared.n_unix_fds_declared.getD 0) false = true := by
  have hn : m.declared.n_unix_fds_declared.getD 0 = m.fds.length := by
    show (if m.fds.length = 0 then none else some m.fds.length).getD 0 = _
    split
    · next h => exact h.symm
    · rfl
  unfold n_fds_valid
  rw [if_neg (by omega), if_neg (by omega)]
  rfl

/-- Of an error the parser has tried to read the first string, which is not
    taken back. -/
def RawMessage.received (raw : RawMessage) (p : ParsedFields) (fds : List Int) : SdBusMessage :=
  if raw.type = SD_BUS_MESSAGE_METHOD_ERROR then
    (sd_bus_message_read_basic SD_BUS_TYPE_STRING (raw.message p fds)).2
  else raw.message p fds

theorem bus_message_from_malloc_received {env : ParseEnv} {buffer : List UInt8} {fds : List Int}
    {got_ctrunc : Bool} {raw : RawMessage} {p : ParsedFields}
    (hraw : message_from_header env.message buffer = .ok raw)
    (hp : message_parse_fields ⟨raw.endian, raw.fields⟩ env.signature raw.type fds.length
      got_ctrunc = .ok p) :
    bus_message_from_malloc env buffer fds got_ctrunc = .ok (raw.received p fds) := by
  unfold bus_message_from_malloc RawMessage.received
  rw [hraw]
  show (message_parse_fields ⟨raw.endian, raw.fields⟩ env.signature raw.type fds.length
    got_ctrunc >>= _) = _
  rw [hp]
  dsimp only [Bind.bind, Outcome.bind]
  split
  · have hsafe := sd_bus_message_read_basic_ensures SD_BUS_TYPE_STRING (raw.message_reading p fds)
    unfold Ensures at hsafe
    match hr : sd_bus_message_read_basic SD_BUS_TYPE_STRING (raw.message p fds) with
    | (.ok v, m') => rfl
    | (.err e, m') => rfl
    | (.abort, m') =>
      rw [hr] at hsafe
      exact hsafe.elim
  · rfl

/-- The parser has only moved the read index. -/
theorem received_same (raw : RawMessage) (p : ParsedFields) (fds : List Int) :
    ∃ rindex index, raw.received p fds = { raw.message p fds with
      rindex := rindex
      root_container := { (raw.message p fds).root_container with index := index } } := by
  unfold RawMessage.received
  split
  · rcases sd_bus_message_read_basic_state (raw.message p fds) SD_BUS_TYPE_STRING with
      h | ⟨q, v, h⟩
    · exact ⟨_, _, h⟩
    · exact ⟨q.stop, _, congrArg Prod.snd h⟩
  · exact ⟨_, _, rfl⟩

/-- Rewinding it takes this back. -/
theorem received_rewind (raw : RawMessage) (p : ParsedFields) (fds : List Int) :
    (sd_bus_message_rewind true (raw.received p fds)).2 = raw.message p fds := by
  obtain ⟨rindex, index, h⟩ := received_same raw p fds
  rw [h]
  rfl

/-- The parts that are sent of a message. -/
def SdBusMessage.raw (m : SdBusMessage) : RawMessage :=
  ⟨BUS_NATIVE_ENDIAN, m.type, m.flags, m.serial, m.fields, m.body⟩

/-- What was sealed is accepted, with the header it was given. -/
theorem sealed_accepted (hs : FieldsSay m.fields ws m.declared) (hws : ws.length ≤ 8)
    (ht : m.type ≠ 0) (hcookie : m.serial ≠ 0) (hserial : m.serial ≤ 0xffffffff)
    (hbody : m.body.length ≤ 0xffffffff) (hreq : required_fields m.type m.declared = true)
    (hlocal : claims_local m.declared = false) :
    bus_message_from_malloc ⟨true, true⟩ m.serialized m.fds false =
      .ok (m.raw.received m.declared m.fds) := by
  have hsize := hs.size
  have hraw := message_from_header_serialized ht hcookie hserial (by omega) hbody
  apply bus_message_from_malloc_received hraw
  have hmax : (header_fields BUS_NATIVE_ENDIAN ws).length ≤ BUS_ARRAY_MAX_SIZE := by
    rw [← hs.written]
    unfold BUS_ARRAY_MAX_SIZE
    omega
  have hparse := message_parse_fields_meanings BUS_NATIVE_ENDIAN ws true m.type m.fds.length false
    hs.valid hmax
  rw [← hs.written, hs.meaning] at hparse
  show message_parse_fields ⟨BUS_NATIVE_ENDIAN, m.fields⟩ true m.type m.fds.length false = _
  rw [hparse]
  show (if !n_fds_valid m.fds.length (m.declared.n_unix_fds_declared.getD 0) false then _ else _) =
    _
  rw [n_fds_valid_declared, if_neg (by decide), hreq, if_neg (by decide), hlocal,
    if_neg (by decide)]

theorem declared_signature (m : SdBusMessage) :
    m.declared.signature.getD [] = m.root_container.signature := by
  show (if m.root_container.signature = [] then none else some _).getD [] = _
  split
  · next h => exact h.symm
  · rfl

/-- What is received says the same of itself. -/
theorem declared_received (m : SdBusMessage) :
    (m.raw.received m.declared m.fds).declared = m.declared := by
  obtain ⟨rindex, index, h⟩ := received_same m.raw m.declared m.fds
  rw [h]
  unfold declared RawMessage.message raw
  have hsig := declared_signature m
  unfold declared at hsig
  rw [hsig]

variable {es : List MessageEvent}

/-- What has been written is read to its end from a message with this body and
    this signature. -/
theorem Written.read_events {F : List Int} {d : Draft} {r : SdBusMessage}
    (hwritten : Written F es m₁ d) (hc : m₁.containers = []) (hsealed : r.sealed = true)
    (hclosed : r.containers = []) (henclosing : r.root_container.enclosing = 0)
    (hindex : r.root_container.index = 0) (hrindex : r.rindex = 0)
    (hendian : r.endian = BUS_NATIVE_ENDIAN) (hfds : r.fds = F) (hbody : r.body = m₁.body)
    (hroot : r.root_container.signature = m₁.root_container.signature)
    (hsig : signature_is_valid r.root_container.signature true = true)
    (hlen : r.root_container.signature.length ≤ SD_BUS_MAXIMUM_SIGNATURE_LENGTH) {fuel : Nat}
    (hf : es.length < fuel) :
    ∃ r', Bus.read_events fuel r = (.ok es, r') ∧ sd_bus_message_at_end true r' = (.ok true, r') ∧
      r'.rindex = r'.body.length := by
  obtain ⟨vs, hvs, -, hts, hvalid, hread, hevents, hdict⟩ := hwritten.values hc
  subst hfds
  rw [hroot, hts] at hsig hlen
  rw [← hevents] at hf ⊢
  rw [← hendian] at hvs hread
  exact read_events_values hsealed hclosed henclosing hindex hrindex (hroot.trans hts) hlen
    (hbody.trans hvs) hvalid (types_ok hsig hdict) hread hf

/-! ## Section 3: The round trip -/

/-- A message as the functions that make one leave it, with what its body has
    by then. The sender of the call that is answered is a name, and so is that
    of the error. -/
inductive NewMessage : SdBusMessage → List MessageEvent → Prop
  | new {env : NewEnv} {type : UInt8} {m : SdBusMessage} :
    message_new env type = .ok m → NewMessage m []
  | signal {env : NewEnv} {destination : Option (List UInt8)}
    {path interface member : List UInt8} {m : SdBusMessage} :
    sd_bus_message_new_signal_to env destination path interface member = .ok m → NewMessage m []
  | method_call {env : NewEnv} {destination interface : Option (List UInt8)}
    {path member : List UInt8} {m : SdBusMessage} :
    sd_bus_message_new_method_call env destination path interface member = .ok m → NewMessage m []
  | method_return {env : NewEnv} {call m : SdBusMessage} :
    call.sender.all service_name_is_valid = true →
    sd_bus_message_new_method_return env call = .ok m → NewMessage m []
  | method_error {env : NewEnv} {call m : SdBusMessage} {name : List UInt8}
    {message : Option (List UInt8)} :
    call.sender.all service_name_is_valid = true → error_name_is_valid name = true →
    (∀ s, message = some s → 0 ∉ s) →
    sd_bus_message_new_method_error env call name message = .ok m →
    NewMessage m (error_events message)

theorem NewMessage.fresh (h : NewMessage m es) : Fresh m es := by
  cases h with
  | new h => exact message_new_fresh h
  | signal h => exact new_signal_fresh h
  | method_call h => exact new_method_call_fresh h
  | method_return hs h => exact new_method_return_fresh hs h
  | method_error hs hn h0 h => exact new_method_error_fresh hs hn h0 h

/-- What is written into a new message and sealed is accepted by the parser:
    it has the same header, and its reader sees from the start, in the same
    nesting, what the writer put into it, and then the end. The calls keep to
    the limits of the reader, and the header to what it asks of a message of
    this type. -/
theorem message_round_trip {es₀ : List MessageEvent} {cs : List WriteCall} {env : SealEnv}
    {enforced : Option (List UInt8)} {cookie : Nat} (hnew : NewMessage m₀ es₀)
    (hp : ∀ c ∈ cs, c.Pointed) (hw : AllWithin m₀ cs) (hrun : write_all cs m₀ = (.ok ⟨⟩, m₁))
    (hseal : sd_bus_message_seal env enforced cookie m₁ = (.ok ⟨⟩, m)) (hcookie : cookie ≠ 0)
    (hsig : signature_is_valid m₁.root_container.signature true = true)
    (hlen : m₁.root_container.signature.length < 255) (ht : m.type ≠ 0)
    (hreq : required_fields m.type m.declared = true) (hlocal : claims_local m.declared = false) :
    ∃ r, bus_message_from_malloc ⟨true, true⟩ m.serialized m.fds false = .ok r ∧
      r.type = m.type ∧ r.flags = m.flags ∧ r.serial = cookie ∧ r.declared = m.declared ∧
      r.fds = m.fds ∧
      (m.type ≠ SD_BUS_MESSAGE_METHOD_ERROR → (sd_bus_message_rewind true r).2 = r) ∧
      ∀ fuel, es₀.length + cs.length < fuel → ∃ r',
        read_events fuel (sd_bus_message_rewind true r).2 =
          (.ok (es₀ ++ cs.map WriteCall.event), r') ∧
        sd_bus_message_at_end true r' = (.ok true, r') ∧ r'.rindex = r'.body.length := by
  have hfresh := hnew.fresh
  obtain ⟨ws, p, hheaded, hws⟩ := hfresh.headed
  obtain ⟨d, hblank⟩ := hfresh.written m₁.fds
  obtain ⟨d1, hwritten⟩ := hblank.run hp hw hrun (prefix_refl _)
  have hheaded1 := hheaded.of_head (write_all_frame hrun).2
  -- every descriptor has its index in the body
  have hfds : m₁.fds.length ≤ 0xffffffff := by
    have h1 := hwritten.n_fds
    have h2 := hwritten.bound
    omega
  obtain ⟨⟨ws', hsay, hws'⟩, hclosed, hmax, hm⟩ :=
    sd_bus_message_seal_ok hheaded1 hsig hlen hfds hseal
  have hserial : m.serial = cookie := by rw [hm]
  have hbody : m.body = m₁.body := by rw [hm]
  have hsame : m.fds = m₁.fds := by rw [hm]
  have hroot : m.root_container.signature = m₁.root_container.signature := by rw [hm]
  have hacc := sealed_accepted hsay (by omega) ht (by rw [hserial]; exact hcookie)
    (by rw [hserial]; exact hmax) (by rw [hbody]; exact hwritten.bound) hreq hlocal
  have hdeclared := declared_received m
  obtain ⟨rindex, index, hr⟩ := received_same m.raw m.declared m.fds
  refine ⟨_, hacc, ?_, ?_, ?_, hdeclared, ?_, ?_, ?_⟩
  · rw [hr]
    rfl
  · rw [hr]
    rfl
  · rw [hr, ← hserial]
    rfl
  · rw [hr]
    rfl
  · intro htype
    rw [received_rewind]
    exact (if_neg htype).symm
  · intro fuel hf
    rw [received_rewind]
    apply hwritten.read_events (r := m.raw.message m.declared m.fds) hclosed rfl rfl rfl rfl rfl
      rfl hsame hbody
    · exact (declared_signature m).trans hroot
    · show signature_is_valid (m.declared.signature.getD []) true = true
      rw [declared_signature, hroot]
      exact hsig
    · show (m.declared.signature.getD []).length ≤ _
      rw [declared_signature, hroot]
      exact le_of_lt hlen
    · rw [length_append, length_map]
      exact hf

/-- A call with a number and a string in an array of structs. -/
def example_new_env : NewEnv :=
  { message := true, fields := fun _ => true, allow_fds := true, interactive := false
    append := ⟨true, true, true, true, true, true, .ok 3⟩ }

/-- The message that was made, where one was. -/
def made_message (o : Outcome SdBusMessage) : SdBusMessage :=
  match o with
  | .ok m => m
  | _ => sd_bus_message_new 0 false false

def example_call : SdBusMessage :=
  made_message (sd_bus_message_new_method_call example_new_env (some (ascii "a.b")) (ascii "/o")
    none (ascii "M"))

/-- An array of one struct, and a descriptor behind it. -/
def example_writes : List WriteCall :=
  [.open_container example_new_env.append SD_BUS_TYPE_ARRAY (ascii "(us)"),
    .open_container example_new_env.append SD_BUS_TYPE_STRUCT (ascii "us"),
    .append_basic example_new_env.append (.fixed .uint32 7),
    .append_basic example_new_env.append (.string (some (ascii "x"))),
    .close_container, .close_container,
    .append_basic example_new_env.append (.unix_fd (some 0))]

def example_written : SdBusMessage := (write_all example_writes example_call).2

def example_sealed : SdBusMessage :=
  (sd_bus_message_seal ⟨true, true⟩ none 1 example_written).2

theorem message_round_trip_example :
    ∃ r, bus_message_from_malloc ⟨true, true⟩ example_sealed.serialized example_sealed.fds false =
        .ok r ∧ r.declared = example_sealed.declared ∧
      ∃ r', read_events 8 (sd_bus_message_rewind true r).2 =
        (.ok (example_writes.map WriteCall.event), r') := by
  obtain ⟨r, hr, -, -, -, hd, -, -, hread⟩ := message_round_trip (m := example_sealed)
    (.method_call (show sd_bus_message_new_method_call example_new_env (some (ascii "a.b"))
      (ascii "/o") none (ascii "M") = .ok example_call by decide +kernel))
    (show ∀ c ∈ example_writes, c.Pointed by decide) (by decide +kernel)
    (show write_all example_writes example_call = (.ok ⟨⟩, example_written) by decide +kernel)
    (show sd_bus_message_seal ⟨true, true⟩ none 1 example_written = (.ok ⟨⟩, example_sealed) by
      decide +kernel)
    (by decide) (by decide +kernel) (by decide +kernel) (by decide +kernel) (by decide +kernel)
    (by decide +kernel)
  obtain ⟨r', hr', -, -⟩ := hread 8 (by decide)
  exact ⟨r, hr, hd, r', hr'⟩

/-- A signal of the local interface. -/
def local_signal : SdBusMessage :=
  made_message (sd_bus_message_new_signal_to example_new_env none
    (ascii "/org/freedesktop/DBus/Local") (ascii "a.b") (ascii "M"))

def local_written : SdBusMessage :=
  (write_all [.append_basic example_new_env.append (.fixed .byte 1)] local_signal).2

def local_sealed : SdBusMessage := (sd_bus_message_seal ⟨true, true⟩ none 1 local_written).2

/-- A message that claims to be a local one is made and sealed, but not
    accepted. -/
theorem local_message_refused :
    NewMessage local_signal [] ∧
      write_all [.append_basic example_new_env.append (.fixed .byte 1)] local_signal =
        (.ok ⟨⟩, local_written) ∧
      sd_bus_message_seal ⟨true, true⟩ none 1 local_written = (.ok ⟨⟩, local_sealed) ∧
      bus_message_from_malloc ⟨true, true⟩ local_sealed.serialized local_sealed.fds false =
        .err .EBADMSG := by
  refine ⟨?_, by decide +kernel, by decide +kernel, by decide +kernel⟩
  apply NewMessage.signal
  show sd_bus_message_new_signal_to example_new_env none
    (ascii "/org/freedesktop/DBus/Local") (ascii "a.b") (ascii "M") = .ok local_signal
  decide +kernel

end SdCompat.Bus
