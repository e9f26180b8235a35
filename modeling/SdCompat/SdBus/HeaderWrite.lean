import SdCompat.SdBus.MessageWrite

/-! # Header fields that are written

    A new message gets its header fields one after another; what is written is
    the marshalled form of fields that mean what the message says of itself.
-/

open Bytes

namespace SdCompat.Bus

open Bool List Call Nat Value UInt8 HeaderField

/-! ## Section 1: Names are plain text -/

/-- ASCII without NUL. -/
def Plain (s : List UInt8) : Prop := ∀ c ∈ s, 0 < c ∧ c < 0x80

variable {s : List UInt8}

theorem Plain.zero_not_mem (h : Plain s) : 0 ∉ s := by
  intro h0
  exact absurd (h 0 h0).1 (by decide)

theorem Plain.utf8 (h : Plain s) : utf8_is_valid s = true :=
  utf8_is_valid_of_ascii fun c hc => (h c hc).2

theorem ascii_isalpha_plain {c : UInt8} (h : ascii_isalpha c = true) : 0 < c ∧ c < 0x80 := by
  unfold ascii_isalpha at h
  simp only [or_eq_true, and_eq_true, decide_eq_true_eq, le_iff_toNat_le] at h
  rw [lt_iff_toNat_lt, lt_iff_toNat_lt]
  have h0 : (0 : UInt8).toNat = 0 := rfl
  have h80 : (0x80 : UInt8).toNat = 128 := rfl
  have h61 : (0x61 : UInt8).toNat = 97 := rfl
  have h7a : (0x7a : UInt8).toNat = 122 := rfl
  have h41 : (0x41 : UInt8).toNat = 65 := rfl
  have h5a : (0x5a : UInt8).toNat = 90 := rfl
  omega

theorem ascii_isdigit_plain {c : UInt8} (h : ascii_isdigit c = true) : 0 < c ∧ c < 0x80 := by
  unfold ascii_isdigit at h
  simp only [and_eq_true, decide_eq_true_eq, le_iff_toNat_le] at h
  rw [lt_iff_toNat_lt, lt_iff_toNat_lt]
  have h0 : (0 : UInt8).toNat = 0 := rfl
  have h80 : (0x80 : UInt8).toNat = 128 := rfl
  have h30 : (0x30 : UInt8).toNat = 48 := rfl
  have h39 : (0x39 : UInt8).toNat = 57 := rfl
  omega

theorem object_path_loop_plain {slash : Bool} {q : List UInt8}
    (h : object_path_loop slash q = true) : Plain q := by
  induction q generalizing slash with
  | nil =>
    intro c hc
    cases hc
  | cons c q ih =>
    unfold object_path_loop at h
    intro d hd
    by_cases hc : c = 0x2f
    · rw [if_pos hc, and_eq_true] at h
      rcases mem_cons.mp hd with rfl | hd
      · rw [hc]
        decide
      · exact ih h.2 d hd
    · rw [if_neg hc, and_eq_true] at h
      rcases mem_cons.mp hd with rfl | hd
      · simp only [or_eq_true, beq_iff_eq] at h
        rcases h.1 with (ha | hn) | hu
        · exact ascii_isalpha_plain ha
        · exact ascii_isdigit_plain hn
        · rw [hu]
          decide
      · exact ih h.2 d hd

theorem object_path_plain (h : object_path_is_valid s = true) :
    Plain s ∧ s.length ≤ BUS_PATH_SIZE_MAX := by
  unfold object_path_is_valid at h
  split at h
  · refine ⟨?_, by decide⟩
    intro c hc
    rw [mem_singleton.mp hc]
    decide
  · rw [and_eq_true, decide_eq_true_eq] at h
    refine ⟨?_, h.2⟩
    intro c hc
    rcases mem_cons.mp hc with rfl | hc
    · decide
    · exact object_path_loop_plain h.1 c hc
  · cases h

theorem name_loop_plain {good : Bool → UInt8 → Bool}
    (hgood : ∀ dot c, good dot c = true → 0 < c ∧ c < 0x80) {dot found_dot : Bool}
    {p : List UInt8} (h : name_loop good dot found_dot p = true) : Plain p := by
  induction p generalizing dot found_dot with
  | nil =>
    intro c hc
    cases hc
  | cons c q ih =>
    unfold name_loop at h
    intro d hd
    by_cases hc : c = 0x2e
    · rw [if_pos hc, and_eq_true] at h
      rcases mem_cons.mp hd with rfl | hd
      · rw [hc]
        decide
      · exact ih h.2 d hd
    · rw [if_neg hc, and_eq_true] at h
      rcases mem_cons.mp hd with rfl | hd
      · exact hgood dot d h.1
      · exact ih h.2 d hd

theorem interface_name_plain (h : interface_name_is_valid s = true) :
    Plain s ∧ s.length ≤ SD_BUS_MAXIMUM_NAME_LENGTH := by
  unfold interface_name_is_valid at h
  rw [and_eq_true, and_eq_true, decide_eq_true_eq, decide_eq_true_eq] at h
  refine ⟨name_loop_plain ?_ h.1.2, h.2⟩
  intro dot c hc
  simp only [or_eq_true, and_eq_true, beq_iff_eq] at hc
  rcases hc with (ha | ⟨-, hn⟩) | hu
  · exact ascii_isalpha_plain ha
  · exact ascii_isdigit_plain hn
  · rw [hu]
    decide

theorem service_name_plain (h : service_name_is_valid s = true) :
    Plain s ∧ s.length ≤ SD_BUS_MAXIMUM_NAME_LENGTH := by
  unfold service_name_is_valid at h
  rw [and_eq_true, and_eq_true] at h
  refine ⟨?_, of_decide_eq_true h.2⟩
  have hloop := name_loop_plain (fun dot c hc => ?_) h.1.2
  · by_cases hu : s.head? = some 0x3a
    · rw [if_pos hu] at hloop
      cases s with
      | nil => cases hu
      | cons c s =>
        intro d hd
        rcases mem_cons.mp hd with rfl | hd
        · cases hu
          decide
        · exact hloop d hd
    · rw [if_neg hu] at hloop
      exact hloop
  · simp only [or_eq_true, and_eq_true, beq_iff_eq] at hc
    rcases hc with ((ha | ⟨-, hn⟩) | hu) | hm
    · exact ascii_isalpha_plain ha
    · exact ascii_isdigit_plain hn
    · rw [hu]
      decide
    · rw [hm]
      decide

theorem member_name_plain (h : member_name_is_valid s = true) :
    Plain s ∧ s.length ≤ SD_BUS_MAXIMUM_NAME_LENGTH := by
  unfold member_name_is_valid at h
  rw [and_eq_true, and_eq_true, decide_eq_true_eq, decide_eq_true_eq] at h
  refine ⟨?_, h.2⟩
  intro c hc
  have hgood := all_eq_true.mp h.1.2 c hc
  simp only [or_eq_true, beq_iff_eq] at hgood
  rcases hgood with (ha | hn) | hu
  · exact ascii_isalpha_plain ha
  · exact ascii_isdigit_plain hn
  · rw [hu]
    decide

/-! ## Section 2: One field behind another -/

/-- What the header fields that have been written say. -/
structure FieldsSay (fields : List UInt8) (ws : List HeaderField) (p : ParsedFields) : Prop where
  written : fields = header_fields BUS_NATIVE_ENDIAN ws
  valid : ∀ w ∈ ws, w.Valid ∧ w.passes = true
  meaning : meanings true ws .none = .ok p
  size : fields.length ≤ 0x20000 * ws.length

theorem FieldsSay.nil : FieldsSay [] [] .none where
  written := rfl
  valid := by
    intro w hw
    cases hw
  meaning := rfl
  size := zero_le _

/-- A field is put behind the others. -/
theorem FieldsSay.add {fields : List UInt8} {ws : List HeaderField} {p p' : ParsedFields}
    {w : HeaderField} (h : FieldsSay fields ws p) (hw : w.Valid) (hpass : w.passes = true)
    (hm : w.meaning true p = .ok p') (hlen : ((variant w.value).encode BUS_NATIVE_ENDIAN
      (alignTo fields.length 8 + 1)).length ≤ 0x10000 + 64) :
    FieldsSay (fields ++ (zeroes fields.length 8 ++ [w.code] ++
      (variant w.value).encode BUS_NATIVE_ENDIAN (alignTo fields.length 8 + 1)))
      (ws ++ [w]) p' where
  written := by
    unfold header_fields
    rw [map_append, encodes_append, zero_add]
    have hfields := h.written
    unfold header_fields at hfields
    rw [← hfields, map_singleton, encodes, encodes, append_nil,
      struct_encode]
  valid := by
    intro u hu
    rcases mem_append.mp hu with hu | hu
    · exact h.valid u hu
    · rw [mem_singleton.mp hu]
      exact ⟨hw, hpass⟩
  meaning := by
    rw [meanings_append, h.meaning]
    show meanings true [w] p = .ok p'
    rw [meanings, hm]
    rfl
  size := by
    have hsize := h.size
    have hpad := alignTo_lt (n := fields.length) (a := 8) (by decide)
    have hadd := add_padding (n := fields.length) (a := 8) (by decide)
    simp only [length_append, length_zeroes, length_singleton]
    omega

/-- The padding is the same where it is counted from the start of the header. -/
theorem zeroes_header (n : Nat) : zeroes (sizeof_header + n) 8 = zeroes n 8 := by
  unfold zeroes
  rw [padding_add (by decide) (by decide)]

variable {m m' : SdBusMessage} {ws : List HeaderField} {p p' : ParsedFields}

variable {h : UInt8} {mem : Bool}

theorem message_append_field_ok {type : UInt8} {value : List UInt8}
    (hrun : message_append_field mem h type value m = (.ok ⟨⟩, m')) :
    m' = { m with fields := m.fields ++ (zeroes m.fields.length 8 ++ ([h, 1, type, 0] ++ value)) } := by
  obtain ⟨b, m1, hx, hrest⟩ := of_bind_ok hrun
  unfold message_extend_fields at hx
  split at hx
  · cases hx
    cases hrest
  split at hx
  · cases hx
    cases hrest
  split at hx
  · cases hx
    cases hrest
  · cases hx
    cases hrest
    rw [zeroes_header, append_assoc]

variable {b : BasicValue}

/-- The variant of a field with a basic value whose place is aligned already. -/
theorem variant_basic_encode (hal : b.type.align ∣ 4) (n : Nat) :
    (variant (.basic b)).encode BUS_NATIVE_ENDIAN (alignTo n 8 + 1) =
      [1, b.type.code, 0] ++ b.encode BUS_NATIVE_ENDIAN := by
  have hpos : 0 < b.type.align := pos_of_dvd_of_pos hal (by decide)
  have hdvd : b.type.align ∣ alignTo n 8 + 1 + (1 + 2) := by
    have h8 : b.type.align ∣ alignTo n 8 :=
      dvd_trans (dvd_trans hal ⟨2, rfl⟩) (dvd_alignTo n 8)
    show b.type.align ∣ alignTo n 8 + 4
    exact Nat.dvd_add h8 hal
  have hzero : zeroes (alignTo n 8 + 1 + (1 + 2)) b.type.align = [] := by
    unfold zeroes padding
    rw [alignTo_of_dvd hpos hdvd, Nat.sub_self]
    rfl
  have hsig : (basic b).type.sig = [b.type.code] := rfl
  show _ ++ ([b.type.code] ++ [0]) ++ (basic b).encode BUS_NATIVE_ENDIAN
    (alignTo n 8 + 1 + (1 + 2)) = _
  rw [encode, hzero]
  rfl

/-- A field with a basic value is appended. -/
theorem FieldsSay.append (hs : FieldsSay m.fields ws p) (hal : b.type.align ∣ 4) (hv : b.Valid)
    (hknown : h ≤ BUS_MESSAGE_HEADER_UNIX_FDS)
    (hm : (⟨h, .basic b⟩ : HeaderField).meaning true p = .ok p')
    (hlen : (b.encode BUS_NATIVE_ENDIAN).length ≤ 0x10000 + 32)
    (hrun : message_append_field mem h b.type.code (b.encode BUS_NATIVE_ENDIAN) m = (.ok ⟨⟩, m')) :
    FieldsSay m'.fields (ws ++ [⟨h, .basic b⟩]) p' ∧ m' = { m with fields := m'.fields } := by
  obtain rfl := message_append_field_ok hrun
  refine ⟨?_, rfl⟩
  have hvalid : (⟨h, .basic b⟩ : HeaderField).Valid := by
    refine ⟨hv, trivial, ?_⟩
    show 1 ≤ SD_BUS_MAXIMUM_SIGNATURE_LENGTH
    decide
  have hpass : (⟨h, .basic b⟩ : HeaderField).passes = true := by
    have hnot : (⟨h, .basic b⟩ : HeaderField).unknown = false := by
      unfold unknown
      rw [decide_eq_false_iff_not]
      exact UInt8.not_lt.mpr hknown
    unfold passes
    rw [hnot]
    rfl
  have hbytes := variant_basic_encode hal m.fields.length
  have hsay := hs.add hvalid hpass hm (by
    rw [hbytes, length_append]
    simp only [length_cons, length_nil]
    omega)
  have hsame : zeroes m.fields.length 8 ++ ([h, 1, b.type.code, 0] ++ b.encode BUS_NATIVE_ENDIAN) =
      zeroes m.fields.length 8 ++ [h] ++ (variant (.basic b)).encode BUS_NATIVE_ENDIAN
        (alignTo m.fields.length 8 + 1) := by
    rw [hbytes, append_assoc]
    rfl
  rw [hsame]
  exact hsay

/-! ## Section 3: The header of a message -/

/-- The message says of itself what its fields mean; the signature and the
    number of descriptors come last. -/
structure Matches (p : ParsedFields) (m : SdBusMessage) : Prop where
  endian : m.endian = BUS_NATIVE_ENDIAN
  path : p.path = m.path
  interface : p.interface = m.interface
  member : p.member = m.member
  destination : p.destination = m.destination
  sender : p.sender = m.sender
  error_name : p.error_name = m.error_name
  reply_cookie : p.reply_cookie = m.reply_cookie
  signature : p.signature = none
  unix_fds : p.n_unix_fds_declared = none

/-- The header fields of a message that is written. -/
structure Headed (m : SdBusMessage) (ws : List HeaderField) (p : ParsedFields) : Prop where
  fields : FieldsSay m.fields ws p
  same : Matches p m

/-- Only the header counts. -/
theorem Headed.of_head (h : Headed m ws p) (hh : m'.head = m.head) : Headed m' ws p := by
  have hfields : FieldsSay m.head.fields ws p := h.fields
  have hsame : Matches p m.head := by
    have hs := h.same
    exact ⟨hs.endian, hs.path, hs.interface, hs.member, hs.destination, hs.sender, hs.error_name,
      hs.reply_cookie, hs.signature, hs.unix_fds⟩
  rw [← hh] at hfields hsame
  exact ⟨hfields, ⟨hsame.endian, hsame.path, hsame.interface, hsame.member, hsame.destination,
    hsame.sender, hsame.error_name, hsame.reply_cookie, hsame.signature, hsame.unix_fds⟩⟩

theorem message_append_field_string_ok {type : UInt8}
    (hrun : message_append_field_string mem h type s m = (.ok ⟨⟩, m')) :
    message_append_field mem h type (ofNat BUS_NATIVE_ENDIAN 4 s.length ++ (s ++ [0])) m =
      (.ok ⟨⟩, m') := by
  obtain ⟨-, hrun⟩ := of_check_bind_ok hrun
  exact hrun

/-- A name is appended, and remembered in the message. -/
theorem Headed.append_name (set : SdBusMessage → SdBusMessage) (say : List UInt8 → ParsedFields)
    (hm : Headed m ws p) (hb : b = .string s ∨ b = .object_path s ∧ object_path_is_valid s = true)
    (hs : Plain s ∧ s.length ≤ BUS_PATH_SIZE_MAX) (hknown : h ≤ BUS_MESSAGE_HEADER_UNIX_FDS)
    {old : Option (List UInt8)} {valid : List UInt8 → Bool}
    (hmean : (⟨h, .basic b⟩ : HeaderField).meaning true p =
      (if !old.isSome && true && valid s then .ok s else .err Errno.EBADMSG) >>= fun s => .ok (say s))
    (hnone : old = none) (hvalid : valid s = true)
    (hset : ∀ fields, Matches (say s) (set { m with fields := fields }))
    (hfields : ∀ m, (set m).fields = m.fields)
    (hrun : (message_append_field_string mem h b.type.code s >>= fun _ => modify set) m = (.ok ⟨⟩, m')) :
    Headed m' (ws ++ [⟨h, .basic b⟩]) (say s) ∧ ∃ fields, m' = set { m with fields := fields } := by
  rw [hnone, hvalid] at hmean
  obtain ⟨⟨⟩, m1, hx, hrest⟩ := of_bind_ok hrun
  cases hrest
  have hlen := hs.2
  unfold BUS_PATH_SIZE_MAX at hlen
  have hv : b.Valid := by
    rcases hb with rfl | ⟨rfl, hpath⟩
    · exact ⟨hs.1.zero_not_mem, hs.1.utf8, by omega⟩
    · exact ⟨hs.1.zero_not_mem, hpath⟩
  have henc : b.encode BUS_NATIVE_ENDIAN = ofNat BUS_NATIVE_ENDIAN 4 s.length ++ (s ++ [0]) := by
    rcases hb with rfl | ⟨rfl, -⟩
    · rfl
    · rfl
  have hal : b.type.align ∣ 4 := by
    rcases hb with rfl | ⟨rfl, -⟩
    · exact dvd_refl 4
    · exact dvd_refl 4
  have hx := message_append_field_string_ok hx
  rw [← henc] at hx
  have hsize : (b.encode BUS_NATIVE_ENDIAN).length ≤ 0x10000 + 32 := by
    rw [henc]
    simp only [length_append, length_ofNat, length_singleton]
    omega
  obtain ⟨hsay, hsame⟩ := hm.fields.append hal hv hknown hmean hsize hx
  refine ⟨⟨?_, ?_⟩, m1.fields, ?_⟩
  · rw [hfields]
    exact hsay
  · rw [hsame]
    exact hset _
  · rw [← hsame]

section fields
variable {env : NewEnv} {s : List UInt8}

section
variable (hm : Headed m ws p)
include hm

theorem Headed.append_path (hnone : m.path = none) (hv : object_path_is_valid s = true)
    (hrun : append_path env s m = (.ok ⟨⟩, m')) :
    Headed m' (ws ++ [⟨BUS_MESSAGE_HEADER_PATH, .basic (.object_path s)⟩])
        { p with path := some s } ∧
      ∃ fields, m' = { m with fields := fields, path := some s } := by
  exact hm.append_name (fun m => { m with path := some s }) (fun s => { p with path := some s }) (.inr ⟨rfl, hv⟩)
    (object_path_plain hv) (by decide) rfl (hm.same.path.trans hnone) hv
    (fun _ => { hm.same with path := rfl }) (fun _ => rfl) hrun

theorem Headed.append_interface (hnone : m.interface = none) (hv : interface_name_is_valid s = true)
    (hrun : append_interface env s m = (.ok ⟨⟩, m')) :
    Headed m' (ws ++ [⟨BUS_MESSAGE_HEADER_INTERFACE, .basic (.string s)⟩])
        { p with interface := some s } ∧
      ∃ fields, m' = { m with fields := fields, interface := some s } := by
  exact hm.append_name (fun m => { m with interface := some s }) (fun s => { p with interface := some s }) (.inl rfl)
    ⟨(interface_name_plain hv).1, le_trans (interface_name_plain hv).2 (by decide)⟩ (by decide) rfl (hm.same.interface.trans hnone) hv
    (fun _ => { hm.same with interface := rfl }) (fun _ => rfl) hrun

theorem Headed.append_member (hnone : m.member = none) (hv : member_name_is_valid s = true)
    (hrun : append_member env s m = (.ok ⟨⟩, m')) :
    Headed m' (ws ++ [⟨BUS_MESSAGE_HEADER_MEMBER, .basic (.string s)⟩])
        { p with member := some s } ∧
      ∃ fields, m' = { m with fields := fields, member := some s } := by
  exact hm.append_name (fun m => { m with member := some s }) (fun s => { p with member := some s }) (.inl rfl)
    ⟨(member_name_plain hv).1, le_trans (member_name_plain hv).2 (by decide)⟩ (by decide) rfl (hm.same.member.trans hnone) hv
    (fun _ => { hm.same with member := rfl }) (fun _ => rfl) hrun

theorem Headed.append_destination (hnone : m.destination = none)
    (hv : service_name_is_valid s = true) (hrun : append_destination env s m = (.ok ⟨⟩, m')) :
    Headed m' (ws ++ [⟨BUS_MESSAGE_HEADER_DESTINATION, .basic (.string s)⟩])
        { p with destination := some s } ∧
      ∃ fields, m' = { m with fields := fields, destination := some s } := by
  exact hm.append_name (fun m => { m with destination := some s }) (fun s => { p with destination := some s }) (.inl rfl)
    ⟨(service_name_plain hv).1, le_trans (service_name_plain hv).2 (by decide)⟩ (by decide) rfl (hm.same.destination.trans hnone) hv
    (fun _ => { hm.same with destination := rfl }) (fun _ => rfl) hrun

theorem Headed.append_error_name (hnone : m.error_name = none) (hv : error_name_is_valid s = true)
    (hrun : append_error_name env s m = (.ok ⟨⟩, m')) :
    Headed m' (ws ++ [⟨BUS_MESSAGE_HEADER_ERROR_NAME, .basic (.string s)⟩])
        { p with error_name := some s } ∧
      ∃ fields, m' = { m with fields := fields, error_name := some s } := by
  exact hm.append_name (fun m => { m with error_name := some s }) (fun s => { p with error_name := some s }) (.inl rfl)
    ⟨(interface_name_plain hv).1, le_trans (interface_name_plain hv).2 (by decide)⟩ (by decide) rfl (hm.same.error_name.trans hnone) hv
    (fun _ => { hm.same with error_name := rfl }) (fun _ => rfl) hrun

/-- The cookie of the call is appended to a reply, which has it already. -/
theorem Headed.append_reply_cookie {mem : Bool} {cookie : Nat} (hnone : m.reply_cookie = 0)
    (hne : cookie ≠ 0)
    (hrun : message_append_reply_cookie mem cookie { m with reply_cookie := cookie } = (.ok ⟨⟩, m')) :
    Headed m' (ws ++ [⟨BUS_MESSAGE_HEADER_REPLY_SERIAL, .basic (.fixed .uint32 cookie)⟩])
        { p with reply_cookie := cookie } ∧
      ∃ fields, m' = { m with fields := fields, reply_cookie := cookie } := by
  obtain ⟨hle, hrun⟩ := of_check_bind_ok hrun
  have hle := of_decide_eq_true hle
  have hp := hm.same.reply_cookie
  have hv : (BasicValue.fixed .uint32 cookie).Valid := by
    show cookie < 256 ^ 4
    omega
  have hmean : (⟨BUS_MESSAGE_HEADER_REPLY_SERIAL, .basic (.fixed .uint32 cookie)⟩ :
      HeaderField).meaning true p = .ok { p with reply_cookie := cookie } := by
    have hunfold : (⟨BUS_MESSAGE_HEADER_REPLY_SERIAL, .basic (.fixed .uint32 cookie)⟩ :
        HeaderField).meaning true p =
          (if p.reply_cookie != 0 then .err Errno.EBADMSG else .ok cookie) >>= fun n =>
            if n = 0 then .err Errno.EBADMSG else .ok { p with reply_cookie := n } := rfl
    rw [hunfold, hp, hnone]
    show (if cookie = 0 then _ else _) = _
    rw [if_neg hne]
  have hfields : FieldsSay ({ m with reply_cookie := cookie } : SdBusMessage).fields ws p :=
    hm.fields
  have hlen : ((BasicValue.fixed .uint32 cookie).encode BUS_NATIVE_ENDIAN).length ≤
      0x10000 + 32 := by
    unfold BasicValue.encode
    rw [length_ofNat]
    decide
  have hal : (BasicValue.fixed .uint32 cookie).type.align ∣ 4 := dvd_refl 4
  obtain ⟨hsay, hsame⟩ := hfields.append hal hv (by decide) hmean hlen hrun
  refine ⟨⟨hsay, ?_⟩, m'.fields, hsame⟩
  rw [hsame]
  exact { hm.same with reply_cookie := rfl }

/-! ## Section 4: New messages -/

/-- Nothing of the body has been written. -/
structure Blank (m : SdBusMessage) : Prop where
  body : m.body = []
  fds : m.fds = []
  containers : m.containers = []
  root : m.root_container = .root

/-- A message as it is made: its header fields, and what its body has by then. -/
structure Fresh (m : SdBusMessage) (es : List MessageEvent) : Prop where
  headed : ∃ ws p, Headed m ws p ∧ ws.length ≤ 6
  written : ∀ F, ∃ d, Written F es m d
  containers : m.containers = []

theorem Fresh.of_blank (hlen : ws.length ≤ 6) (hb : Blank m) : Fresh m [] where
  headed := ⟨ws, p, hm, hlen⟩
  written := fun F => ⟨_, Written.fresh F hb.body hb.fds hb.containers hb.root⟩
  containers := hb.containers

end

theorem new_headed (type : UInt8) (allow_fds interactive : Bool) :
    Headed (sd_bus_message_new type allow_fds interactive) [] .none where
  fields := FieldsSay.nil
  same := ⟨rfl, rfl, rfl, rfl, rfl, rfl, rfl, rfl, rfl, rfl⟩

/-- The same but for the flags. -/
theorem new_headed_flags (type flags : UInt8) (allow_fds interactive : Bool) :
    Headed { sd_bus_message_new type allow_fds interactive with flags := flags } [] .none where
  fields := FieldsSay.nil
  same := ⟨rfl, rfl, rfl, rfl, rfl, rfl, rfl, rfl, rfl, rfl⟩

variable {type : UInt8} {x : Call SdBusMessage PUnit}

theorem made_ok (h : made env type x = .ok m) :
    x (sd_bus_message_new type env.allow_fds env.interactive) = (.ok ⟨⟩, m) := by
  unfold made at h
  split at h
  · cases h
  · match hx : x (sd_bus_message_new type env.allow_fds env.interactive) with
    | (.ok _, m1) =>
      rw [hx] at h
      cases h
      rfl
    | (.err e, m1) =>
      rw [hx] at h
      cases h
    | (.abort, m1) =>
      rw [hx] at h
      cases h

/-- A string that may be NULL is appended, or nothing happens. -/
theorem when_set_ok {o : Option (List UInt8)} {x : List UInt8 → Call SdBusMessage PUnit}
    (h : when_set o x m = (.ok ⟨⟩, m')) :
    (o = none ∧ m' = m) ∨ ∃ s, o = some s ∧ x s m = (.ok ⟨⟩, m') := by
  cases o with
  | none =>
    cases h
    exact Or.inl ⟨rfl, rfl⟩
  | some s => exact Or.inr ⟨s, rfl, h⟩

theorem message_new_fresh (h : message_new env type = .ok m) : Fresh m [] := by
  unfold message_new at h
  split at h
  · cases h
  · have hx := made_ok h
    cases hx
    exact .of_blank (new_headed _ _ _) (by decide) ⟨rfl, rfl, rfl, rfl⟩

variable {destination : Option (List UInt8)}

variable {member path : List UInt8}

theorem new_signal_fresh {interface : List UInt8}
    (h : sd_bus_message_new_signal_to env destination path interface member = .ok m) :
    Fresh m [] := by
  unfold sd_bus_message_new_signal_to at h
  split at h
  · cases h
  next hdest =>
  split at h
  · cases h
  next hpath =>
  split at h
  · cases h
  next hinterface =>
  split at h
  · cases h
  next hmember =>
  rw [not_eq_true', not_eq_false] at hdest hpath hinterface hmember
  have hx := made_ok h
  obtain ⟨⟨⟩, m1, h1, hx⟩ := of_bind_ok hx
  cases h1
  obtain ⟨⟨⟩, m2, h2, hx⟩ := of_bind_ok hx
  obtain ⟨hm2, f2, rfl⟩ := (new_headed_flags _ _ _ _).append_path rfl hpath h2
  obtain ⟨⟨⟩, m3, h3, hx⟩ := of_bind_ok hx
  obtain ⟨hm3, f3, rfl⟩ := hm2.append_interface rfl hinterface h3
  obtain ⟨⟨⟩, m4, h4, hx⟩ := of_bind_ok hx
  obtain ⟨hm4, f4, rfl⟩ := hm3.append_member rfl hmember h4
  rcases when_set_ok hx with ⟨-, rfl⟩ | ⟨s, hs, hx⟩
  · exact .of_blank hm4 (by simp) ⟨rfl, rfl, rfl, rfl⟩
  · rw [hs] at hdest
    obtain ⟨hm5, f5, rfl⟩ := hm4.append_destination rfl hdest hx
    exact .of_blank hm5 (by simp) ⟨rfl, rfl, rfl, rfl⟩

theorem new_method_call_fresh {interface : Option (List UInt8)}
    (h : sd_bus_message_new_method_call env destination path interface member = .ok m) :
    Fresh m [] := by
  unfold sd_bus_message_new_method_call at h
  split at h
  · cases h
  next hdest =>
  split at h
  · cases h
  next hpath =>
  split at h
  · cases h
  next hinterface =>
  split at h
  · cases h
  next hmember =>
  rw [not_eq_true', not_eq_false] at hdest hpath hinterface hmember
  have hx := made_ok h
  obtain ⟨⟨⟩, m2, h2, hx⟩ := of_bind_ok hx
  obtain ⟨hm2, f2, rfl⟩ := (new_headed _ _ _).append_path rfl hpath h2
  obtain ⟨⟨⟩, m3, h3, hx⟩ := of_bind_ok hx
  obtain ⟨hm3, f3, rfl⟩ := hm2.append_member rfl hmember h3
  obtain ⟨⟨⟩, m4, h4, hx⟩ := of_bind_ok hx
  rcases when_set_ok h4 with ⟨-, rfl⟩ | ⟨i, hi, h4⟩
  · rcases when_set_ok hx with ⟨-, rfl⟩ | ⟨s, hs, hx⟩
    · exact .of_blank hm3 (by simp) ⟨rfl, rfl, rfl, rfl⟩
    · rw [hs] at hdest
      obtain ⟨hm5, f5, rfl⟩ := hm3.append_destination rfl hdest hx
      exact .of_blank hm5 (by simp) ⟨rfl, rfl, rfl, rfl⟩
  · rw [hi] at hinterface
    obtain ⟨hm4, f4, rfl⟩ := hm3.append_interface rfl hinterface h4
    rcases when_set_ok hx with ⟨-, rfl⟩ | ⟨s, hs, hx⟩
    · exact .of_blank hm4 (by simp) ⟨rfl, rfl, rfl, rfl⟩
    · rw [hs] at hdest
      obtain ⟨hm5, f5, rfl⟩ := hm4.append_destination rfl hdest hx
      exact .of_blank hm5 (by simp) ⟨rfl, rfl, rfl, rfl⟩

variable {call : SdBusMessage}

/-- A reply, before what is specific to its type. -/
theorem message_new_reply_ok (hs : call.sender.all service_name_is_valid = true)
    (h : message_new_reply env call type x = .ok m) :
    ∃ m₁ ws p, Headed m₁ ws p ∧ ws.length ≤ 2 ∧ Blank m₁ ∧ m₁.error_name = none ∧
      x m₁ = (.ok ⟨⟩, m) := by
  unfold message_new_reply at h
  split at h
  · cases h
  split at h
  · cases h
  split at h
  · cases h
  next hserial =>
  have hx := made_ok h
  obtain ⟨⟨⟩, m₁, h1, hx⟩ := of_bind_ok hx
  cases h1
  obtain ⟨⟨⟩, m2, h2, hx⟩ := of_bind_ok hx
  cases h2
  obtain ⟨⟨⟩, m3, h3, hx⟩ := of_bind_ok hx
  obtain ⟨hm3, f3, rfl⟩ := (new_headed_flags _ _ _ _).append_reply_cookie rfl hserial h3
  obtain ⟨⟨⟩, m4, h4, hx⟩ := of_bind_ok hx
  rcases when_set_ok h4 with ⟨-, rfl⟩ | ⟨s, hsome, h4⟩
  · exact ⟨_, _, _, hm3, by simp, ⟨rfl, rfl, rfl, rfl⟩, rfl, hx⟩
  · rw [hsome] at hs
    obtain ⟨hm4, f4, rfl⟩ := hm3.append_destination rfl hs h4
    exact ⟨_, _, _, hm4, by simp, ⟨rfl, rfl, rfl, rfl⟩, rfl, hx⟩

theorem new_method_return_fresh (hs : call.sender.all service_name_is_valid = true)
    (h : sd_bus_message_new_method_return env call = .ok m) : Fresh m [] := by
  obtain ⟨m1, ws, p, hm, hlen, hb, -, hx⟩ := message_new_reply_ok hs h
  cases hx
  exact .of_blank hm (by omega) hb

theorem update_last_root {f : BusMessageContainer → BusMessageContainer}
    (hc : m.containers = []) : (m.update_last f).containers = [] := by
  unfold SdBusMessage.update_last
  rw [hc]

/-- A string that is appended outside of all containers. -/
theorem append_string_root {env : AppendEnv} {s : Option (List UInt8)} (hf : m.fds = [])
    (hc : m.containers = []) (h : sd_bus_message_append_basic env (.string s) m = (.ok ⟨⟩, m')) :
    m'.fds = [] ∧ m'.containers = [] := by
  obtain ⟨m1, align, data, fd, -, hnext, hdata, -, rfl⟩ := append_basic_ok h
  have hfd : fd = none := by
    unfold basic_data at hdata
    dsimp only at hdata
    split at hdata
    · cases hdata
    · cases hdata
      rfl
  have hc1 : m1.containers = [] := by
    rcases next_in_signature_ok hnext with ⟨-, -, rfl⟩ | ⟨-, -, rfl⟩
    · exact hc
    · exact update_last_root hc
  constructor
  · rw [set_index_fds, hfd, (next_in_signature_frame hnext).2.1, hf]
    rfl
  · unfold set_index
    split
    · exact update_last_root hc1
    · exact hc1

/-- The message of an error is the first value of its body. -/
def error_events (message : Option (List UInt8)) : List MessageEvent :=
  (message.map fun s => .basic SD_BUS_TYPE_STRING (.string s)).toList

theorem new_method_error_fresh {name : List UInt8} {message : Option (List UInt8)}
    (hs : call.sender.all service_name_is_valid = true) (hname : error_name_is_valid name = true)
    (h0 : ∀ s, message = some s → 0 ∉ s)
    (h : sd_bus_message_new_method_error env call name message = .ok m) :
    Fresh m (error_events message) := by
  obtain ⟨m1, ws, p, hm, hlen, hb, hnone, hx⟩ := message_new_reply_ok hs h
  obtain ⟨⟨⟩, m2, h2, hx⟩ := of_bind_ok hx
  obtain ⟨hm2, f2, rfl⟩ := hm.append_error_name hnone hname h2
  have hb2 : Blank { m1 with fields := f2, error_name := some name } :=
    ⟨hb.body, hb.fds, hb.containers, hb.root⟩
  rcases when_set_ok hx with ⟨rfl, rfl⟩ | ⟨s, rfl, hx⟩
  · exact .of_blank hm2 (by simp; omega) hb2
  · -- the message is appended like any string
    have hrun : (WriteCall.append_basic env.append (.string (some s))).run
        { m1 with fields := f2, error_name := some name } = (.ok ⟨⟩, m) := hx
    have hframe := WriteCall.run_frame hrun
    obtain ⟨hfds, hclosed⟩ := append_string_root hb2.fds hb2.containers hrun
    refine ⟨⟨_, _, hm2.of_head hframe.2, by simp; omega⟩, ?_, hclosed⟩
    intro F
    have hfresh := Written.fresh F hb2.body hb2.fds hb2.containers hb2.root
    have hpointed : BasicArg.Pointed (.string (some s)) := h0 s rfl
    obtain ⟨d, hd, -⟩ := hfresh.step (c := .append_basic env.append (.string (some s))) hpointed
      trivial hrun (by
      rw [hfds]
      exact nil_prefix)
    exact ⟨d, hd⟩

end fields

end SdCompat.Bus
