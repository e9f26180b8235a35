import SdCompat.SdBus.MessageParse
import SdCompat.SdBus.Signature

/-! # Header fields that are not known

    A header field is a code and a value. What the parser makes of the fields
    of a message is what they mean one after another; a field whose code is not
    known means nothing.
-/

open Bytes

namespace SdCompat.Bus

open Call List Value Outcome Nat BasicType

/-! ## Section 1: Reading what is there -/

/-- Marshalled bytes are peeked at, behind their padding. -/
theorem peek_part_at {buf b : List UInt8} {pos align : Nat} (ha : 0 < align)
    (h : At buf pos (zeroes pos align ++ b)) :
    peek_part buf pos align b.length = some ⟨alignTo pos align, b.length⟩ ∧
      At buf (alignTo pos align) b := by
  have hb := h.right
  rw [length_zeroes, add_padding ha] at hb
  have hle := hb.le
  have hz := h.left.slice_eq
  rw [length_zeroes] at hz
  refine ⟨?_, hb⟩
  unfold peek_part
  rw [if_neg (by omega), if_neg (by omega), hz, if_neg (by simp [zeroes])]

/-- A call on the header fields yields this outcome, and moves on by as many
    bytes if that is a value. -/
def Yields {α : Type} (x : Call Nat α) (pos len : Nat) : Outcome α → Prop
  | .ok a => x pos = (.ok a, pos + len)
  | .err e => (x pos).1 = .err e
  | .abort => False

namespace Yields

variable {α β : Type} {x : Call Nat α} {pos len len' : Nat}

theorem pure (a : α) (pos : Nat) : Yields (Pure.pure a) pos 0 (.ok a) := rfl

variable {k : α → Call Nat β} {o : Outcome α}

/-- A sequence yields what its parts yield. -/
theorem bind {o' : α → Outcome β} (hx : Yields x pos len o)
    (hk : ∀ a, o = .ok a → Yields (k a) (pos + len) len' (o' a)) :
    Yields (x >>= k) pos (len + len') (o >>= o') := by
  cases o with
  | ok a =>
    have hr : x pos = (.ok a, pos + len) := hx
    have hk := hk a rfl
    rw [ok_bind]
    cases ho : o' a with
    | ok b =>
      rw [ho] at hk
      show (x >>= k) pos = (.ok b, pos + (len + len'))
      rw [bind_run, hr, ← add_assoc]
      exact hk
    | err e =>
      rw [ho] at hk
      show ((x >>= k) pos).1 = .err e
      rw [bind_run, hr]
      exact hk
    | abort =>
      rw [ho] at hk
      exact hk
  | err e =>
    have hr : (x pos).1 = .err e := hx
    show ((x >>= k) pos).1 = .err e
    rw [bind_run]
    match hm : x pos with
    | (.ok a, s) =>
      rw [hm] at hr
      cases hr
    | (.err e', s) =>
      rw [hm] at hr
      cases hr
      rfl
    | (.abort, s) =>
      rw [hm] at hr
      cases hr
  | abort => exact hx.elim

/-- A part that succeeds. -/
theorem bind_ok {a : α} {o' : Outcome β} (hx : Yields x pos len (.ok a))
    (hk : Yields (k a) (pos + len) len' o') : Yields (x >>= k) pos (len + len') o' := by
  have h : ∀ a', ok a = .ok a' → Yields (k a') (pos + len) len' o' := by
    intro a' ha
    cases ha
    exact hk
  exact hx.bind h

variable {e : Errno}

/-- A part that fails. -/
theorem bind_err (hx : Yields x pos len (.err e)) : Yields (x >>= k) pos len' (.err e) := by
  have h : ∀ a, err e = .ok a → Yields (k a) (pos + len) 0 (.err e) := by
    intro a ha
    cases ha
  exact hx.bind h

/-- Only the value changes after it. -/
theorem bind_pure {g : α → β} (hx : Yields x pos len o) :
    Yields (x >>= fun a => Pure.pure (g a)) pos len (o >>= fun a => .ok (g a)) :=
  hx.bind fun a _ => pure (g a) (pos + len)

theorem of_len (hx : Yields x pos len o) (h : len = len') : Yields x pos len' o := by
  rwa [← h]

/-- A check, and what comes after it. -/
theorem check_bind {b : Bool} {k : PUnit → Call Nat β} {o : Outcome β}
    (hk : b = true → Yields (k ⟨⟩) pos len o) :
    Yields (check b e >>= k) pos len (if b then o else .err e) := by
  cases hb : b with
  | true => exact hk hb
  | false => rfl

theorem check_pass {b : Bool} {k : PUnit → Call Nat β} {o : Outcome β} (hb : b = true)
    (hk : Yields (k ⟨⟩) pos len o) : Yields (check b e >>= k) pos len o := by
  subst hb
  exact hk

end Yields

section reading
variable {f : Fields} {pos : Nat}

theorem message_peek_fields_yields {align : Nat} {b : List UInt8} (ha : 0 < align)
    (h : At f.fields pos (zeroes pos align ++ b)) :
    Yields (message_peek_fields f align b.length) pos (zeroes pos align ++ b).length
      (.ok ⟨alignTo pos align, b.length⟩) ∧ f.bytes ⟨alignTo pos align, b.length⟩ = b := by
  obtain ⟨hp, hb⟩ := peek_part_at ha h
  refine ⟨?_, hb.slice_eq⟩
  show message_peek_fields f align b.length pos = _
  unfold message_peek_fields
  rw [get_bind_run, hp]
  dsimp only
  rw [modify_bind_run, pure_run, length_append, length_zeroes, ← add_assoc,
    add_padding ha]
  rfl

theorem message_peek_field_uint32_yields {n : Nat} (hn : n < 256 ^ 4)
    (h : At f.fields pos (zeroes pos 4 ++ ofNat f.endian 4 n)) :
    Yields (message_peek_field_uint32 f) pos (zeroes pos 4 ++ ofNat f.endian 4 n).length
      (.ok n) := by
  obtain ⟨hp, hb⟩ := message_peek_fields_yields (by decide) h
  rw [length_ofNat] at hp hb
  have hm := hp.bind_pure (g := f.bswap)
  rwa [ok_bind, Fields.bswap, hb, toNat_ofNat f.endian hn] at hm

variable {s : List UInt8}

/-- A string that ends with a NUL has none before it. -/
theorem validate_append_nul (valid : List UInt8 → Bool) (h0 : 0 ∉ s) :
    validate valid (s ++ [0]) s.length = valid s := by
  unfold validate validate_nul
  simp [h0]

theorem message_peek_field_string_yields (valid : Option (List UInt8 → Bool)) (h0 : 0 ∉ s)
    (hl : s.length < 0xffffffff)
    (h : At f.fields pos (zeroes pos 4 ++ (ofNat f.endian 4 s.length ++ (s ++ [0])))) :
    Yields (message_peek_field_string f valid) pos
      (zeroes pos 4 ++ (ofNat f.endian 4 s.length ++ (s ++ [0]))).length
      (if valid.getD utf8_is_valid s then .ok s else .err .EBADMSG) := by
  rw [← append_assoc] at h ⊢
  have hs : At f.fields (pos + (zeroes pos 4 ++ ofNat f.endian 4 s.length).length)
      (zeroes (pos + (zeroes pos 4 ++ ofNat f.endian 4 s.length).length) 1 ++ (s ++ [0])) := by
    rw [zeroes_one]
    exact h.right
  obtain ⟨hp, hb⟩ := message_peek_fields_yields (by decide) hs
  have hlen : (s ++ [0]).length = s.length + 1 := by simp
  rw [zeroes_one, nil_append] at hp
  rw [hlen] at hp hb
  rw [length_append, hlen]
  apply (message_peek_field_uint32_yields (by omega) h.left).bind_ok
  have hne : (s.length != 0xffffffff) = true := by simpa using Nat.ne_of_lt hl
  apply Yields.check_pass hne
  refine (hp.bind_ok ?_).of_len (Nat.add_zero _)
  rw [hb, validate_append_nul _ h0, dropLast_concat]
  exact Yields.check_bind fun _ => Yields.pure _ _

/-- A signature; one of 255 characters is refused. -/
theorem message_peek_field_signature_yields (h0 : 0 ∉ s) (hv : signature_is_valid s true = true)
    (h : At f.fields pos (ofNat f.endian 1 s.length ++ (s ++ [0]))) :
    Yields (message_peek_field_signature f) pos (ofNat f.endian 1 s.length ++ (s ++ [0])).length
      (if s.length = 0xff then .err .EBADMSG else .ok s) := by
  have hl : s.length ≤ 0xff := by
    unfold signature_is_valid at hv
    simp only [Bool.and_eq_true, decide_eq_true_eq] at hv
    exact hv.2
  have h1 : At f.fields pos (zeroes pos 1 ++ ofNat f.endian 1 s.length) := by
    rw [zeroes_one]
    exact h.left
  have h2 : At f.fields (pos + (ofNat f.endian 1 s.length).length)
      (zeroes (pos + (ofNat f.endian 1 s.length).length) 1 ++ (s ++ [0])) := by
    rw [zeroes_one]
    exact h.right
  obtain ⟨hp1, hb1⟩ := message_peek_fields_yields (by decide) h1
  obtain ⟨hp2, hb2⟩ := message_peek_fields_yields (by decide) h2
  have hlen : (s ++ [0]).length = s.length + 1 := by simp
  rw [zeroes_one, nil_append] at hp1 hp2
  rw [hlen] at hp2 hb2
  rw [length_ofNat] at hp1 hb1 hp2 hb2
  rw [length_append, hlen, length_ofNat]
  apply hp1.bind_ok
  unfold Fields.bswap
  rw [hb1, toNat_ofNat f.endian (by omega)]
  by_cases hs : s.length = 0xff
  · rw [hs]
    rfl
  · rw [if_neg hs]
    apply Yields.check_pass (by simpa using hs)
    refine (hp2.bind_ok ?_).of_len (add_zero _)
    unfold validate_signature
    rw [hb2, validate_append_nul _ h0, dropLast_concat]
    exact Yields.check_pass hv (Yields.pure _ _)

end reading

/-! ## Section 2: Skipping a value -/

/-- A signature of 255 characters is refused where it is a value. -/
def BasicValue.short : BasicValue → Bool
  | signature s => s.length != 0xff
  | _ => true

/-- The value can be skipped at this depth: there is no struct and no
    dictionary entry in it, no array has more than one element, no signature is
    too long, and it is not nested too deeply. -/
def Value.skippable : Nat → Value → Bool
  | _, basic v => v.short
  | depth, variant v =>
    v.type.sig.length != 0xff && depth + 1 < BUS_CONTAINER_DEPTH && v.skippable (depth + 1)
  | depth, array _ [] => depth + 1 < BUS_CONTAINER_DEPTH
  | depth, array _ [v] => depth + 1 < BUS_CONTAINER_DEPTH && v.skippable (depth + 1)
  | _, _ => false

section skipping
variable {f : Fields} {pos fuel original_index depth : Nat} {array_size : Option Nat}
  {s : List UInt8}

/-- One round of the loop, for a type whose value is read by one call. -/
theorem skip_round {α : Type} {x : Call Nat α} {len : Nat} {a : α} {k : Call Nat PUnit}
    (hx : Yields x pos len (.ok a)) : (x >>= fun _ => k) pos = k (pos + len) := by
  have hr : x pos = (.ok a, pos + len) := hx
  rw [bind_run, hr]

theorem message_skip_loop_number {c : UInt8} {align size n : Nat}
    (hc : c ≠ SD_BUS_TYPE_STRING ∧ c ≠ SD_BUS_TYPE_OBJECT_PATH ∧ c ≠ SD_BUS_TYPE_SIGNATURE)
    (hb : bus_type_is_basic c = true) (ha : bus_type_get_alignment c = some align)
    (hs : bus_type_get_size c = some size)
    (hend : array_size.any (· ≤ pos - original_index) = false)
    (h : At f.fields pos (zeroes pos align ++ ofNat f.endian size n)) :
    message_skip_loop f (fuel + 1) original_index array_size (c :: s) depth pos =
      message_skip_loop f fuel original_index array_size s depth
        (pos + (zeroes pos align ++ ofNat f.endian size n).length) := by
  have hp := (message_peek_fields_yields (bus_type_get_alignment_pos ha) h).1
  rw [length_ofNat] at hp
  rw [message_skip_loop, get_bind_run, hend]
  rw [if_neg hc.1, if_neg hc.2.1, if_neg hc.2.2, if_pos hb, ha, hs]
  exact skip_round hp

/-- A basic value is skipped. -/
theorem message_skip_loop_basic {v : BasicValue} (hv : v.Valid) (hshort : v.short = true)
    (hl : f.fields.length ≤ BUS_ARRAY_MAX_SIZE)
    (hend : array_size.any (· ≤ pos - original_index) = false)
    (h : At f.fields pos ((basic v).encode f.endian pos)) :
    message_skip_loop f (fuel + 1) original_index array_size (v.type.code :: s) depth pos =
      message_skip_loop f fuel original_index array_size s depth
        (pos + ((basic v).encode f.endian pos).length) := by
  have hlen := h.le
  cases v with
  | fixed t n =>
    have hs : bus_type_get_size t.code = some ((bus_type_get_size t.code).getD 1) := by
      cases t <;> rfl
    have hc : (fixed t).code ≠ SD_BUS_TYPE_STRING ∧
        (fixed t).code ≠ SD_BUS_TYPE_OBJECT_PATH ∧
        (fixed t).code ≠ SD_BUS_TYPE_SIGNATURE := by
      cases t <;> decide
    exact message_skip_loop_number hc (fixed t).code_basic
      (fixed t).code_alignment hs hend h
  | boolean b =>
    exact message_skip_loop_number (c := SD_BUS_TYPE_BOOLEAN) (by decide) (by decide) rfl rfl
      hend h
  | unix_fd index =>
    exact message_skip_loop_number (c := SD_BUS_TYPE_UNIX_FD) (by decide) (by decide) rfl rfl
      hend h
  | string str =>
    obtain ⟨h0, hu, hlt⟩ := hv
    have hp := message_peek_field_string_yields none h0 hlt h
    rw [Option.getD_none, hu] at hp
    rw [message_skip_loop, get_bind_run, hend]
    exact skip_round hp
  | object_path str =>
    obtain ⟨h0, hu⟩ := hv
    have hlt : str.length < 0xffffffff := by
      simp only [encode, BasicValue.encode, length_append] at hlen
      unfold BUS_ARRAY_MAX_SIZE at hl
      omega
    have hp := message_peek_field_string_yields (some object_path_is_valid) h0 hlt h
    rw [Option.getD_some, hu] at hp
    rw [message_skip_loop, get_bind_run, hend]
    exact skip_round hp
  | signature str =>
    obtain ⟨h0, hu⟩ := hv
    have hz : (basic (.signature str)).encode f.endian pos =
        ofNat f.endian 1 str.length ++ (str ++ [0]) := by
      show zeroes pos 1 ++ _ = _
      rw [zeroes_one]
      rfl
    rw [hz] at h ⊢
    have hp := message_peek_field_signature_yields h0 hu h
    rw [if_neg (by simpa [BasicValue.short] using hshort)] at hp
    rw [message_skip_loop, get_bind_run, hend]
    exact skip_round hp

/-- At the end of the signature the loop ends. -/
theorem message_skip_loop_nil :
    message_skip_loop f (fuel + 1) original_index array_size [] depth pos = (.ok ⟨⟩, pos) := by
  rw [message_skip_loop, get_bind_run]
  split <;> rfl

variable {buf : List UInt8}

/-- The parts of a marshalled array: the length, the padding, the elements. -/
theorem array_parts {e : Endian} {elem : Ty} {vs : List Value}
    (h : At buf pos ((array elem vs).encode e pos)) : At buf pos (zeroes pos 4 ++
        ofNat e 4 (encodes e (alignTo (alignTo pos 4 + 4) elem.align) vs).length) ∧
      At buf (alignTo pos 4 + 4) (zeroes (alignTo pos 4 + 4) elem.align) ∧
      At buf (alignTo (alignTo pos 4 + 4) elem.align)
        (encodes e (alignTo (alignTo pos 4 + 4) elem.align) vs) ∧
      pos + ((array elem vs).encode e pos).length = alignTo (alignTo pos 4 + 4) elem.align +
          (encodes e (alignTo (alignTo pos 4 + 4) elem.align) vs).length := by
  have hpos : pos + (padding pos 4 + 4) = alignTo pos 4 + 4 := by
    rw [← add_assoc, add_padding (by decide)]
  have h1 := h.left.left
  have h2 := h.left.right
  have h3 := h.right
  rw [length_append, length_zeroes, length_ofNat, hpos] at h2
  rw [length_append, length_append, length_zeroes, length_ofNat, length_zeroes,
    ← add_assoc, hpos, add_padding elem.align_pos] at h3
  refine ⟨h1, h2, h3, ?_⟩
  have hal := add_padding (n := alignTo pos 4 + 4) elem.align_pos
  rw [encode]
  simp only [length_append, length_zeroes, length_ofNat]
  omega

variable {v : Value}

/-- The parts of a marshalled variant: the signature, and the value. -/
theorem variant_parts {e : Endian} (h : At buf pos ((variant v).encode e pos)) :
    At buf pos (ofNat e 1 v.type.sig.length ++ (v.type.sig ++ [0])) ∧
      (ofNat e 1 v.type.sig.length ++ (v.type.sig ++ [0])).length = v.type.sig.length + 2 ∧
      At buf (pos + (v.type.sig.length + 2)) (v.encode e (pos + (v.type.sig.length + 2))) ∧
      pos + ((variant v).encode e pos).length =
        pos + (v.type.sig.length + 2) + (v.encode e (pos + (v.type.sig.length + 2))).length := by
  have hlen : (ofNat e 1 v.type.sig.length ++ (v.type.sig ++ [0])).length =
      v.type.sig.length + 2 := by
    simp
    omega
  have hr := h.right
  rw [hlen] at hr
  refine ⟨h.left, hlen, hr, ?_⟩
  rw [encode, length_append, hlen, ← add_assoc]

/-- What can be skipped takes some bytes. -/
theorem encode_length_pos (h : v.skippable depth = true) (e : Endian) (pos : Nat) :
    0 < (v.encode e pos).length := by
  cases v with
  | basic v =>
    rw [encode]
    cases v <;> simp [BasicValue.encode]
    next t n =>
      right
      cases t <;> decide
  | variant v =>
    rw [encode]
    simp
  | array elem vs =>
    rw [encode]
    simp only [length_append, length_ofNat]
    omega
  | struct vs => simp [skippable] at h
  | dict_entry key value => simp [skippable] at h

theorem headD_sig_append (t : Ty) (s : List UInt8) : (t.sig ++ s).headD 0 = t.sig.headD 0 := by
  obtain ⟨c, r, hc⟩ := exists_cons_of_ne_nil t.sig_ne_nil
  rw [hc]
  rfl

/-- A call goes one round, if it is to skip one value. -/
theorem message_skip_fields_round {sig : List UInt8} {len : Nat} (hd : depth < BUS_CONTAINER_DEPTH)
    (hloop : message_skip_loop f (fuel + 2) pos array_size (sig ++ []) depth pos =
      message_skip_loop f (fuel + 1) pos array_size [] depth (pos + len)) :
    message_skip_fields f (fuel + 3) array_size sig depth pos = (.ok ⟨⟩, pos + len) := by
  rw [append_nil] at hloop
  rw [message_skip_fields, check_bind_run_true (by simpa using hd), get_bind_run, hloop]
  exact message_skip_loop_nil

/-- Induction over the value: one round of the loop skips it. Each container
    takes two units of fuel, for the call and for the loop. -/
theorem message_skip_loop_value (v : Value) {pos original_index depth : Nat} (fuel : Nat)
    (array_size : Option Nat) (s : List UInt8) (hv : v.Valid) (ht : v.type.Ok true 0 0)
    (hskip : v.skippable depth = true) (hf : 2 * (BUS_CONTAINER_DEPTH - depth) ≤ fuel)
    (hl : f.fields.length ≤ BUS_ARRAY_MAX_SIZE)
    (hend : array_size.any (· ≤ pos - original_index) = false)
    (h : At f.fields pos (v.encode f.endian pos)) :
    message_skip_loop f (fuel + 1) original_index array_size (v.type.sig ++ s) depth pos =
      message_skip_loop f fuel original_index array_size s depth
        (pos + (v.encode f.endian pos).length) := by
  match v with
  | .basic v => exact message_skip_loop_basic hv hskip hl hend h
  | .variant v =>
    simp only [skippable, Bool.and_eq_true, bne_iff_ne, decide_eq_true_eq] at hskip
    obtain ⟨⟨hlen, hdepth⟩, hskip⟩ := hskip
    obtain ⟨hv, hok, hmax⟩ := hv
    obtain ⟨hsig, hsize, hval, hpos⟩ := variant_parts h
    have hp := message_peek_field_signature_yields v.type.zero_not_mem_sig
      (signature_is_valid_sig hok.alone hmax) hsig
    rw [if_neg hlen, hsize] at hp
    have hr : message_peek_field_signature f pos =
      (.ok v.type.sig, pos + (v.type.sig.length + 2)) := hp
    obtain ⟨fuel, rfl⟩ : ∃ n, fuel = n + 3 := ⟨fuel - 3, by omega⟩
    have hin := message_skip_fields_round hdepth (message_skip_loop_value v (fuel + 1) none [] hv
      hok.alone hskip (by omega) hl rfl hval)
    show message_skip_loop f (fuel + 3 + 1) original_index array_size (SD_BUS_TYPE_VARIANT :: s)
      depth pos = _
    rw [message_skip_loop, get_bind_run, hend, if_neg Bool.false_ne_true]
    rw [if_neg (by decide), if_neg (by decide), if_neg (by decide), if_neg (by decide),
      if_neg (by decide), if_pos (by rfl)]
    rw [bind_run, hr]
    dsimp only
    rw [bind_run, hin, hpos]
  | .array elem vs =>
    have hok : elem.Ok true 0 0 := Ty.Ok.alone ht.2
    obtain ⟨hnas, hpad, helems, hpos⟩ := array_parts h
    obtain ⟨hallv, htypes⟩ := hv
    -- the length is at most that of the header fields
    have hle := helems.le
    have hn := message_peek_field_uint32_yields (by unfold BUS_ARRAY_MAX_SIZE at hl; omega) hnas
    have hr : message_peek_field_uint32 f pos =
        (.ok (encodes f.endian (alignTo (alignTo pos 4 + 4) elem.align) vs).length,
          alignTo pos 4 + 4) := by
      have : message_peek_field_uint32 f pos = _ := hn
      rw [this, length_append, length_zeroes, length_ofNat, ← add_assoc,
        add_padding (by decide)]
    have hp : message_peek_fields f elem.align 0 (alignTo pos 4 + 4) =
        (.ok ⟨alignTo (alignTo pos 4 + 4) elem.align, 0⟩,
          alignTo (alignTo pos 4 + 4) elem.align) := by
      rw [← append_nil (zeroes _ _)] at hpad
      have : message_peek_fields f elem.align 0 (alignTo pos 4 + 4) = _ :=
        (message_peek_fields_yields elem.align_pos hpad).1
      rw [this, append_nil, length_zeroes, add_padding elem.align_pos]
      rfl
    have hsplit : signature_element_length (elem.sig ++ s) = some elem.sig.length :=
      signature_element_length_sig s hok
    have hspos := length_pos_iff.mpr elem.sig_ne_nil
    show message_skip_loop f (fuel + 1) original_index array_size
      (SD_BUS_TYPE_ARRAY :: (elem.sig ++ s)) depth pos = _
    rw [message_skip_loop, get_bind_run, hend, if_neg Bool.false_ne_true]
    rw [if_neg (by decide), if_neg (by decide), if_neg (by decide), if_neg (by decide),
      if_pos (by rfl), hsplit]
    dsimp only
    rw [if_neg (by omega), headD_sig_append, elem.sig_alignment]
    dsimp only
    rw [bind_run, hr]
    dsimp only
    rw [check_bind_run_true (by simp; omega), bind_run, hp]
    dsimp only
    rw [take_left' rfl, drop_left' rfl, bind_run, hpos]
    match vs with
    | [] =>
      have hdepth : depth + 1 < BUS_CONTAINER_DEPTH := by simpa [skippable] using hskip
      obtain ⟨fuel, rfl⟩ : ∃ n, fuel = n + 2 := ⟨fuel - 2, by omega⟩
      rw [message_skip_fields, check_bind_run_true (by simpa using hdepth),
        get_bind_run, message_skip_loop.eq_def]
      dsimp only
      rfl
    | [v] =>
      simp only [skippable, Bool.and_eq_true, decide_eq_true_eq] at hskip
      obtain ⟨hdepth, hskip⟩ := hskip
      have htv : v.type = elem := htypes v.type (by simp [types])
      have hvs : ∀ p, encodes f.endian p [v] = v.encode f.endian p := by
        intro p
        rw [encodes, encodes, append_nil]
      rw [hvs] at helems ⊢
      have hlen := encode_length_pos hskip f.endian (alignTo (alignTo pos 4 + 4) elem.align)
      have hnas : (some (v.encode f.endian (alignTo (alignTo pos 4 + 4) elem.align)).length).any
          (· ≤ alignTo (alignTo pos 4 + 4) elem.align - alignTo (alignTo pos 4 + 4) elem.align)
          = false := by
        rw [Option.any_some, decide_eq_false_iff_not]
        omega
      obtain ⟨fuel, rfl⟩ : ∃ n, fuel = n + 3 := ⟨fuel - 3, by omega⟩
      have hin := message_skip_fields_round hdepth (message_skip_loop_value v (fuel + 1)
        (some (v.encode f.endian (alignTo (alignTo pos 4 + 4) elem.align)).length) [] hallv.1
        (htv ▸ hok) hskip (by omega) hl hnas helems)
      rw [htv] at hin
      rw [hin]
    | _ :: _ :: _ => simp [skippable] at hskip
  | .struct vs => simp [skippable] at hskip
  | .dict_entry key value => simp [skippable] at hskip

/-- The value of a field that is not known is skipped exactly. -/
theorem message_skip_fields_exact (hv : v.Valid) (ht : v.type.Ok true 0 0)
    (hskip : v.skippable 0 = true) (hl : f.fields.length ≤ BUS_ARRAY_MAX_SIZE)
    (h : At f.fields pos (v.encode f.endian pos)) :
    message_skip_fields f skip_fields_fuel none v.type.sig 0 pos =
      (.ok ⟨⟩, pos + (v.encode f.endian pos).length) := by
  have hend : (none : Option Nat).any (· ≤ pos - pos) = false := rfl
  exact message_skip_fields_round (by decide)
    (message_skip_loop_value v (skip_fields_fuel - 2) none [] hv ht hskip (by decide) hl hend h)

end skipping

/-! ## Section 3: What a header field means -/

/-- A header field: its code, and the value in its variant. -/
structure HeaderField where
  code : UInt8
  value : Value

namespace HeaderField

/-- The struct it is marshalled as. -/
def struct (w : HeaderField) : Value :=
  .struct [.basic (.fixed .byte w.code.toNat), .variant w.value]

/-- The code is one that the parser does not know. -/
def unknown (w : HeaderField) : Bool := BUS_MESSAGE_HEADER_UNIX_FDS < w.code

/-- The field is one that may be sent. -/
def Valid (w : HeaderField) : Prop :=
  w.value.Valid ∧ w.value.type.Ok false 0 0 ∧
    w.value.type.sig.length ≤ SD_BUS_MAXIMUM_SIGNATURE_LENGTH

/-- If the field is not known, it can be skipped. -/
def passes (w : HeaderField) : Bool :=
  !w.unknown || (w.value.type.sig.length != 0xff && w.value.skippable 0)

/-- A string that the message does not have yet. -/
def string_meaning (there : Bool) (t : BasicType) (valid : List UInt8 → Bool) :
    Value → Outcome (List UInt8)
  | .basic (.string s) =>
    if !there && t == .string && valid s then .ok s else .err .EBADMSG
  | .basic (.object_path s) =>
    if !there && t == .object_path && valid s then .ok s else .err .EBADMSG
  | _ => .err .EBADMSG

/-- A number that the message does not have yet. -/
def uint32_meaning (there : Bool) : Value → Outcome Nat
  | .basic (.fixed .uint32 n) => if there then .err .EBADMSG else .ok n
  | _ => .err .EBADMSG

/-- The signature, which the message does not have yet. -/
def signature_meaning (mem : Bool) (p : ParsedFields) : Value → Outcome ParsedFields
  | .basic (.signature s) =>
    if p.signature.isSome || s.length = 0xff then .err .EBADMSG
    else if !mem then .err .ENOMEM
    else .ok { p with signature := some s }
  | _ => .err .EBADMSG

/-- The field as it adds to what is known of the message. -/
def meaning (mem : Bool) (w : HeaderField) (p : ParsedFields) : Outcome ParsedFields :=
  if w.value.type.sig.length = 0xff || w.code = 0 then .err .EBADMSG
  else if w.code = BUS_MESSAGE_HEADER_PATH then do
    let s ← string_meaning p.path.isSome .object_path object_path_is_valid w.value
    .ok { p with path := some s }
  else if w.code = BUS_MESSAGE_HEADER_INTERFACE then do
    let s ← string_meaning p.interface.isSome .string interface_name_is_valid w.value
    .ok { p with interface := some s }
  else if w.code = BUS_MESSAGE_HEADER_MEMBER then do
    let s ← string_meaning p.member.isSome .string member_name_is_valid w.value
    .ok { p with member := some s }
  else if w.code = BUS_MESSAGE_HEADER_ERROR_NAME then do
    let s ← string_meaning p.error_name.isSome .string error_name_is_valid w.value
    .ok { p with error_name := some s }
  else if w.code = BUS_MESSAGE_HEADER_DESTINATION then do
    let s ← string_meaning p.destination.isSome .string service_name_is_valid w.value
    .ok { p with destination := some s }
  else if w.code = BUS_MESSAGE_HEADER_SENDER then do
    let s ← string_meaning p.sender.isSome .string service_name_is_valid w.value
    .ok { p with sender := some s }
  else if w.code = BUS_MESSAGE_HEADER_SIGNATURE then signature_meaning mem p w.value
  else if w.code = BUS_MESSAGE_HEADER_REPLY_SERIAL then do
    let n ← uint32_meaning (p.reply_cookie != 0) w.value
    if n = 0 then .err .EBADMSG else .ok { p with reply_cookie := n }
  else if w.code = BUS_MESSAGE_HEADER_UNIX_FDS then do
    let n ← uint32_meaning p.n_unix_fds_declared.isSome w.value
    .ok { p with n_unix_fds_declared := some n }
  else .ok p

/-- What some fields mean, one after another. -/
def meanings (mem : Bool) : List HeaderField → ParsedFields → Outcome ParsedFields
  | [], p => .ok p
  | w :: ws, p => do meanings mem ws (← w.meaning mem p)

/-- A field that is not known means nothing. -/
theorem meaning_unknown (mem : Bool) (w : HeaderField) (p : ParsedFields)
    (hu : w.unknown = true) (hp : w.passes = true) : w.meaning mem p = .ok p := by
  have hlen : w.value.type.sig.length ≠ 0xff := by
    have : w.value.type.sig.length ≠ 0xff ∧ w.value.skippable 0 = true := by
      simpa [passes, hu] using hp
    exact this.1
  have hlt : BUS_MESSAGE_HEADER_UNIX_FDS < w.code := by simpa [unknown] using hu
  -- the code is larger than all that are known
  have hne : ∀ c ≤ BUS_MESSAGE_HEADER_UNIX_FDS, w.code ≠ c := by
    intro c hc he
    exact absurd (he ▸ hlt) (UInt8.not_lt.mpr hc)
  unfold meaning
  rw [if_neg (by simpa [hlen] using hne 0 (by decide)), if_neg (hne _ (by decide)),
    if_neg (hne _ (by decide)), if_neg (hne _ (by decide)), if_neg (hne _ (by decide)),
    if_neg (hne _ (by decide)), if_neg (hne _ (by decide)), if_neg (hne _ (by decide)),
    if_neg (hne _ (by decide)), if_neg (hne _ (by decide))]

theorem meanings_append (mem : Bool) (ws ws' : List HeaderField) (p : ParsedFields) :
    meanings mem (ws ++ ws') p = meanings mem ws p >>= meanings mem ws' := by
  induction ws generalizing p with
  | nil => rfl
  | cons w ws ih =>
    show (w.meaning mem p >>= fun p => meanings mem (ws ++ ws') p) =
      (w.meaning mem p >>= fun p => meanings mem ws p) >>= meanings mem ws'
    cases w.meaning mem p with
    | ok p' => exact ih p'
    | err e => rfl
    | abort => rfl

end HeaderField

/-! ## Section 4: The parser finds what the fields mean -/

/-- A signature of one basic code is that of a basic type. -/
theorem type_of_sig {v : Value} {t : BasicType} (h : v.type.sig = [t.code]) :
    ∃ b, v = .basic b ∧ b.type = t := by
  have hb := t.code_basic
  cases v with
  | basic b =>
    exact ⟨b, rfl, code_injective (cons.inj h).1⟩
  | variant v =>
    rw [← (cons.inj h).1] at hb
    cases hb
  | array elem vs =>
    rw [← (cons.inj h).1] at hb
    cases hb
  | struct vs =>
    rw [← (cons.inj h).1] at hb
    cases hb
  | dict_entry key value =>
    rw [← (cons.inj h).1] at hb
    cases hb

section parsing
variable {f : Fields} {pos : Nat}

variable {v : Value}

theorem string_field_yields (there : Bool) {t : BasicType} (ht : t = .string ∨ t = .object_path)
    (valid : List UInt8 → Bool) (hv : v.Valid) (hl : f.fields.length ≤ BUS_ARRAY_MAX_SIZE)
    (h : At f.fields pos (v.encode f.endian pos)) :
    Yields (string_field f there v.type.sig [t.code] valid) pos (v.encode f.endian pos).length
      (HeaderField.string_meaning there t valid v) := by
  have hle := h.le
  by_cases hth : there = true
  · -- a second field of the kind
    have hm : HeaderField.string_meaning there t valid v = .err .EBADMSG := by
      unfold HeaderField.string_meaning
      split <;> simp [hth]
    rw [hm, hth]
    rfl
  apply Yields.check_pass (by simpa using hth)
  have hth' : there = false := by simpa using hth
  by_cases hs : v.type.sig = [t.code]
  · apply Yields.check_pass (by simpa using hs)
    obtain ⟨b, rfl, rfl⟩ := type_of_sig hs
    cases b with
    | string str =>
      obtain ⟨h0, -, hlt⟩ := hv
      have hm : HeaderField.string_meaning there (BasicValue.string str).type valid
          (.basic (.string str)) = if valid str then .ok str else .err .EBADMSG := by
        simp [HeaderField.string_meaning, hth', BasicValue.type]
      rw [hm]
      exact message_peek_field_string_yields (some valid) h0 hlt h
    | object_path str =>
      have hlt : str.length < 0xffffffff := by
        simp only [encode, BasicValue.encode, length_append] at hle
        unfold BUS_ARRAY_MAX_SIZE at hl
        omega
      have hm : HeaderField.string_meaning there (BasicValue.object_path str).type valid
          (.basic (.object_path str)) = if valid str then .ok str else .err .EBADMSG := by
        simp [HeaderField.string_meaning, hth', BasicValue.type]
      rw [hm]
      exact message_peek_field_string_yields (some valid) hv.1 hlt h
    | fixed t n => rcases ht with ht | ht <;> cases ht
    | boolean b => rcases ht with ht | ht <;> cases ht
    | signature str => rcases ht with ht | ht <;> cases ht
    | unix_fd index => rcases ht with ht | ht <;> cases ht
  · have hm : HeaderField.string_meaning there t valid v = .err .EBADMSG := by
      unfold HeaderField.string_meaning
      split
      · next str =>
        have : t ≠ .string := fun he => hs (by rw [he]; rfl)
        simp [this]
      · next str =>
        have : t ≠ .object_path := fun he => hs (by rw [he]; rfl)
        simp [this]
      · rfl
    have hb : (v.type.sig == [t.code]) = false := by simpa using hs
    rw [hm, hb]
    rfl

theorem uint32_field_yields (there : Bool) (hv : v.Valid)
    (h : At f.fields pos (v.encode f.endian pos)) {k : Nat → Call Nat ParsedFields}
    {o : Nat → Outcome ParsedFields} (hk : ∀ n pos, Yields (k n) pos 0 (o n)) :
    Yields (check (!there) .EBADMSG >>= fun _ =>
        check (v.type.sig == ascii "u") .EBADMSG >>= fun _ =>
        message_peek_field_uint32 f >>= k) pos (v.encode f.endian pos).length
      (HeaderField.uint32_meaning there v >>= o) := by
  by_cases hth : there = true
  · have hm : HeaderField.uint32_meaning there v = .err .EBADMSG := by
      unfold HeaderField.uint32_meaning
      split <;> simp [hth]
    rw [hm, hth]
    rfl
  apply Yields.check_pass (by simpa using hth)
  have hth' : there = false := by simpa using hth
  by_cases hs : v.type.sig = ascii "u"
  · apply Yields.check_pass (by simpa using hs)
    obtain ⟨b, rfl, hb⟩ := type_of_sig (t := .fixed .uint32) hs
    cases b with
    | fixed t n =>
      cases hb
      rw [hth']
      refine ((message_peek_field_uint32_yields hv h).bind fun n' _ => hk n' _).of_len ?_
      rfl
    | string str => cases hb
    | object_path str => cases hb
    | boolean b => cases hb
    | signature str => cases hb
    | unix_fd index => cases hb
  · have hm : HeaderField.uint32_meaning there v = .err .EBADMSG := by
      unfold HeaderField.uint32_meaning
      split
      · exact absurd rfl hs
      · rfl
    have hb : (v.type.sig == ascii "u") = false := by simpa using hs
    rw [hm, hb]
    rfl

theorem signature_field_yields (mem : Bool) (p : ParsedFields) (hv : v.Valid)
    (h : At f.fields pos (v.encode f.endian pos)) :
    Yields (check p.signature.isNone .EBADMSG >>= fun _ =>
        check (v.type.sig == ascii "g") .EBADMSG >>= fun _ =>
        message_peek_field_signature f >>= fun s =>
        check mem .ENOMEM >>= fun _ =>
        (pure { p with signature := some s } : Call Nat ParsedFields))
      pos (v.encode f.endian pos).length
      (HeaderField.signature_meaning mem p v) := by
  unfold HeaderField.signature_meaning
  by_cases hth : p.signature.isSome = true
  · have hn : p.signature.isNone = false := by
      cases hs : p.signature with
      | none => simp [hs] at hth
      | some s => rfl
    rw [hn]
    split
    · rw [if_pos (by simp [hth])]
      rfl
    · rfl
  apply Yields.check_pass (by simpa using hth)
  by_cases hs : v.type.sig = ascii "g"
  · apply Yields.check_pass (by simpa using hs)
    obtain ⟨b, rfl, hb⟩ := type_of_sig (t := .signature) hs
    cases b with
    | signature str =>
      have hz : (basic (.signature str)).encode f.endian pos =
          ofNat f.endian 1 str.length ++ (str ++ [0]) := by
        show zeroes pos 1 ++ _ = _
        rw [zeroes_one]
        rfl
      rw [hz] at h ⊢
      have hp := message_peek_field_signature_yields hv.1 hv.2 h
      by_cases hlen : str.length = 0xff
      · rw [if_pos hlen] at hp
        dsimp only
        rw [if_pos (by simp [hlen])]
        exact hp.bind_err
      · rw [if_neg hlen] at hp
        dsimp only
        rw [if_neg (by simp [hth, hlen])]
        refine (hp.bind_ok ?_).of_len (add_zero _)
        cases mem with
        | true => exact Yields.pure _ _
        | false => rfl
    | fixed t n => cases hb
    | string str => cases hb
    | object_path str => cases hb
    | boolean b => cases hb
    | unix_fd index => cases hb
  · have hb : (v.type.sig == ascii "g") = false := by simpa using hs
    rw [hb]
    split
    · exact absurd rfl hs
    · rfl

variable {w : HeaderField}

theorem parse_field_yields (mem : Bool) (p : ParsedFields) (hw : w.Valid) (hp : w.passes = true)
    (hlen : w.value.type.sig.length ≠ 0xff) (hl : f.fields.length ≤ BUS_ARRAY_MAX_SIZE)
    (h : At f.fields pos (w.value.encode f.endian pos)) :
    Yields (parse_field f mem w.code w.value.type.sig p) pos (w.value.encode f.endian pos).length
      (w.meaning mem p) := by
  obtain ⟨hv, hok, -⟩ := hw
  unfold parse_field HeaderField.meaning
  by_cases h0 : w.code = 0
  · rw [if_pos h0, if_pos (by simp [h0])]
    rfl
  have hno : ¬ (decide (w.value.type.sig.length = 0xff) || decide (w.code = 0)) = true := by
    simp [h0, hlen]
  rw [if_neg h0, if_neg hno]
  by_cases h1 : w.code = BUS_MESSAGE_HEADER_PATH
  · rw [if_pos h1, if_pos h1]
    exact (string_field_yields _ (.inr rfl) _ hv hl h).bind_pure
  rw [if_neg h1, if_neg h1]
  by_cases h2 : w.code = BUS_MESSAGE_HEADER_INTERFACE
  · rw [if_pos h2, if_pos h2]
    exact (string_field_yields _ (.inl rfl) _ hv hl h).bind_pure
  rw [if_neg h2, if_neg h2]
  by_cases h3 : w.code = BUS_MESSAGE_HEADER_MEMBER
  · rw [if_pos h3, if_pos h3]
    exact (string_field_yields _ (.inl rfl) _ hv hl h).bind_pure
  rw [if_neg h3, if_neg h3]
  by_cases h4 : w.code = BUS_MESSAGE_HEADER_ERROR_NAME
  · rw [if_pos h4, if_pos h4]
    exact (string_field_yields _ (.inl rfl) _ hv hl h).bind_pure
  rw [if_neg h4, if_neg h4]
  by_cases h5 : w.code = BUS_MESSAGE_HEADER_DESTINATION
  · rw [if_pos h5, if_pos h5]
    exact (string_field_yields _ (.inl rfl) _ hv hl h).bind_pure
  rw [if_neg h5, if_neg h5]
  by_cases h6 : w.code = BUS_MESSAGE_HEADER_SENDER
  · rw [if_pos h6, if_pos h6]
    exact (string_field_yields _ (.inl rfl) _ hv hl h).bind_pure
  rw [if_neg h6, if_neg h6]
  by_cases h7 : w.code = BUS_MESSAGE_HEADER_SIGNATURE
  · rw [if_pos h7, if_pos h7]
    exact signature_field_yields mem p hv h
  rw [if_neg h7, if_neg h7]
  by_cases h8 : w.code = BUS_MESSAGE_HEADER_REPLY_SERIAL
  · rw [if_pos h8, if_pos h8]
    have hk : ∀ n pos, Yields (check (n != 0) .EBADMSG >>= fun _ =>
        (pure { p with reply_cookie := n } : Call Nat ParsedFields)) pos 0
        (if n = 0 then .err .EBADMSG else .ok { p with reply_cookie := n }) := by
      intro n pos
      by_cases hn : n = 0
      · rw [hn]
        rfl
      · rw [if_neg hn]
        exact Yields.check_pass (by simpa using hn) (Yields.pure _ _)
    have hc : (p.reply_cookie == 0) = !(p.reply_cookie != 0) := by simp [bne]
    rw [hc]
    exact uint32_field_yields _ hv h hk
  rw [if_neg h8, if_neg h8]
  by_cases h9 : w.code = BUS_MESSAGE_HEADER_UNIX_FDS
  · rw [if_pos h9, if_pos h9]
    have hc : p.n_unix_fds_declared.isNone = !p.n_unix_fds_declared.isSome := by simp
    rw [hc]
    exact uint32_field_yields _ hv h fun n pos => Yields.pure _ _
  rw [if_neg h9, if_neg h9]
  -- the code is not known
  have hu : w.unknown = true := by
    unfold HeaderField.unknown
    rw [decide_eq_true_iff, UInt8.lt_iff_toNat_lt]
    have hc : ∀ c : UInt8, w.code ≠ c → w.code.toNat ≠ c.toNat := by
      intro c hc he
      exact hc (UInt8.toNat_inj.mp he)
    have := hc _ h0
    have := hc _ h1
    have := hc _ h2
    have := hc _ h3
    have := hc _ h4
    have := hc _ h5
    have := hc _ h6
    have := hc _ h7
    have := hc _ h8
    have := hc _ h9
    simp only [BUS_MESSAGE_HEADER_PATH, BUS_MESSAGE_HEADER_INTERFACE, BUS_MESSAGE_HEADER_MEMBER,
      BUS_MESSAGE_HEADER_ERROR_NAME, BUS_MESSAGE_HEADER_REPLY_SERIAL,
      BUS_MESSAGE_HEADER_DESTINATION, BUS_MESSAGE_HEADER_SENDER, BUS_MESSAGE_HEADER_SIGNATURE,
      BUS_MESSAGE_HEADER_UNIX_FDS, UInt8.reduceToNat] at *
    omega
  have hskip : w.value.skippable 0 = true := by
    have : w.value.type.sig.length ≠ 0xff ∧ w.value.skippable 0 = true := by
      simpa [HeaderField.passes, hu] using hp
    exact this.2
  have hx : Yields (message_skip_fields f skip_fields_fuel none w.value.type.sig 0) pos
      (w.value.encode f.endian pos).length (.ok ⟨⟩) :=
    message_skip_fields_exact hv hok.alone hskip hl h
  exact hx.bind_pure (g := fun _ => p)

/-- The bytes of a header field. -/
theorem struct_encode (e : Endian) (w : HeaderField) (pos : Nat) :
    w.struct.encode e pos = zeroes pos 8 ++ [w.code] ++
      (variant w.value).encode e (alignTo pos 8 + 1) := by
  have hc : (basic (.fixed .byte w.code.toNat)).encode e (alignTo pos 8) = [w.code] := by
    show zeroes (alignTo pos 8) 1 ++ ofNat e 1 w.code.toNat = [w.code]
    cases e <;> simp [ofNat, ofNatLE]
  have hs : w.struct.encode e pos = zeroes pos 8 ++ encodes e (alignTo pos 8)
      [.basic (.fixed .byte w.code.toNat), .variant w.value] := by
    rw [HeaderField.struct, encode]
  rw [hs, encodes_pair, hc, append_assoc]
  rfl

/-- The parts of a marshalled header field: the code, and the variant. -/
theorem struct_parts {buf : List UInt8} {e : Endian} (h : At buf pos (w.struct.encode e pos)) :
    At buf pos (zeroes pos 8 ++ [w.code]) ∧
      At buf (alignTo pos 8 + 1) ((variant w.value).encode e (alignTo pos 8 + 1)) ∧
      pos + (w.struct.encode e pos).length = alignTo pos 8 + 1 +
        ((variant w.value).encode e (alignTo pos 8 + 1)).length := by
  have hs := struct_encode e w pos
  have hlen : (zeroes pos 8 ++ [w.code]).length = padding pos 8 + 1 := by simp
  have hpos : pos + (padding pos 8 + 1) = alignTo pos 8 + 1 := by
    rw [← add_assoc, add_padding (by decide)]
  rw [hs] at h ⊢
  have hr := h.right
  rw [hlen, hpos] at hr
  refine ⟨h.left, hr, ?_⟩
  rw [length_append, hlen, ← add_assoc, hpos]

theorem parse_header_field_yields (mem : Bool) (p : ParsedFields) (hw : w.Valid)
    (hp : w.passes = true) (hl : f.fields.length ≤ BUS_ARRAY_MAX_SIZE)
    (h : At f.fields pos (w.struct.encode f.endian pos)) :
    Yields (parse_header_field f mem p) pos (w.struct.encode f.endian pos).length
      (w.meaning mem p) := by
  obtain ⟨hcode, hvar, hlen⟩ := struct_parts h
  obtain ⟨hsig, hsize, hval, hvlen⟩ := variant_parts hvar
  obtain ⟨hp1, hb⟩ := message_peek_fields_yields (by decide) hcode
  have hp2 := message_peek_field_signature_yields w.value.type.zero_not_mem_sig
    (signature_is_valid_sig hw.2.1.alone hw.2.2) hsig
  rw [hsize] at hp2
  have hpos : pos + (zeroes pos 8 ++ [w.code]).length = alignTo pos 8 + 1 := by
    rw [length_append, length_zeroes, ← add_assoc, add_padding (by decide)]
    rfl
  have hround : Yields (message_peek_field_signature f >>= fun signature => parse_field f mem
      ((f.bytes ⟨alignTo pos 8, [w.code].length⟩).headD 0) signature p)
      (pos + (zeroes pos 8 ++ [w.code]).length)
      ((variant w.value).encode f.endian (alignTo pos 8 + 1)).length (w.meaning mem p) := by
    rw [hb, hpos]
    by_cases hs : w.value.type.sig.length = 0xff
    · rw [if_pos hs] at hp2
      have hm : w.meaning mem p = .err .EBADMSG := by
        unfold HeaderField.meaning
        rw [if_pos (by simp [hs])]
      rw [hm]
      exact hp2.bind_err
    · rw [if_neg hs] at hp2
      refine (hp2.bind_ok (parse_field_yields mem p hw hp hs hl hval)).of_len ?_
      omega
  exact (hp1.bind_ok hround).of_len (by omega)

end parsing

/-- The header fields of a message, marshalled. -/
def header_fields (e : Endian) (ws : List HeaderField) : List UInt8 :=
  encodes e 0 (ws.map HeaderField.struct)

/-- Induction over the fields: the loop finds what they mean. -/
theorem parse_fields_loop_meanings (f : Fields) (mem : Bool) (ws : List HeaderField)
    {pos fuel : Nat} (p : ParsedFields) (hw : ∀ w ∈ ws, w.Valid ∧ w.passes = true)
    (hl : f.fields.length ≤ BUS_ARRAY_MAX_SIZE)
    (h : At f.fields pos (encodes f.endian pos (ws.map HeaderField.struct)))
    (hend : pos + (encodes f.endian pos (ws.map HeaderField.struct)).length = f.fields.length)
    (hf : ws.length ≤ fuel) :
    (parse_fields_loop f mem fuel p pos).1 = HeaderField.meanings mem ws p := by
  induction ws generalizing pos fuel p with
  | nil =>
    have hge : ¬ pos < f.fields.length := by
      simp [encodes] at hend
      omega
    cases fuel with
    | zero =>
      rw [parse_fields_loop, get_bind_run, if_neg hge]
      rfl
    | succ fuel =>
      rw [parse_fields_loop, get_bind_run, if_neg hge]
      rfl
  | cons w ws ih =>
    rw [map_cons, encodes] at h hend
    obtain ⟨fuel, rfl⟩ : ∃ n, fuel = n + 1 := ⟨fuel - 1, by simp at hf; omega⟩
    have hlen := (struct_parts h.left).2.2
    have hal := le_alignTo (n := pos) (a := 8) (by decide)
    rw [length_append] at hend
    have hy := parse_header_field_yields mem p (hw w mem_cons_self).1
      (hw w mem_cons_self).2 hl h.left
    rw [parse_fields_loop, get_bind_run, if_pos (by omega), HeaderField.meanings,
      bind_run]
    cases hm : w.meaning mem p with
    | ok p' =>
      rw [hm] at hy
      have hr : parse_header_field f mem p pos = _ := hy
      rw [hr]
      exact ih p' (fun w hm => hw w (mem_cons_of_mem _ hm)) h.right (by omega)
        (by simpa using hf)
    | err e =>
      rw [hm] at hy
      have hr : (parse_header_field f mem p pos).1 = .err e := hy
      match hx : parse_header_field f mem p pos with
      | (.ok a, s) =>
        rw [hx] at hr
        cases hr
      | (.err e', s) =>
        rw [hx] at hr
        cases hr
        rfl
      | (.abort, s) =>
        rw [hx] at hr
        cases hr
    | abort =>
      rw [hm] at hy
      exact hy.elim

/-- There are not more fields than bytes. -/
theorem length_le_header_fields (e : Endian) (ws : List HeaderField) (pos : Nat) :
    ws.length ≤ (encodes e pos (ws.map HeaderField.struct)).length := by
  induction ws generalizing pos with
  | nil => exact zero_le _
  | cons w ws ih =>
    rw [map_cons, encodes, length_append, length_cons]
    have hpos : 0 < (w.struct.encode e pos).length := by
      rw [struct_encode]
      simp
    have := ih (pos + (w.struct.encode e pos).length)
    omega

/-- Where the fields start does not matter, but for the padding. -/
theorem header_fields_length (e : Endian) (w : HeaderField) (ws : List HeaderField) (pos : Nat) :
    pos + (encodes e pos ((w :: ws).map HeaderField.struct)).length =
      alignTo pos 8 + (encodes e 0 ((w :: ws).map HeaderField.struct)).length := by
  have h8 := dvd_alignTo pos 8
  have hpad := add_padding (n := pos) (a := 8) (by decide)
  have hw : w.struct.encode e pos = zeroes pos 8 ++ w.struct.encode e 0 := by
    have hz : zeroes 0 8 = [] := by decide
    rw [struct_encode, struct_encode, hz, nil_append, encode_add e _ 1 h8,
      append_assoc]
    rfl
  have hstop : pos + (zeroes pos 8 ++ w.struct.encode e 0).length =
      alignTo pos 8 + (w.struct.encode e 0).length := by
    rw [length_append, length_zeroes, ← add_assoc, hpad]
  rw [map_cons, encodes, encodes, length_append, length_append, hw,
    ← add_assoc, hstop, encodes_add e _ _ h8, zero_add, add_assoc]

/-- Without a field the rest is not longer. -/
theorem header_fields_length_le (e : Endian) (ws ws' : List HeaderField) (u : HeaderField) :
    (header_fields e (ws ++ ws')).length ≤ (header_fields e (ws ++ u :: ws')).length := by
  unfold header_fields
  rw [map_append, map_append, encodes_append, encodes_append,
    length_append, length_append, map_cons, encodes, length_append]
  generalize hp : 0 + (encodes e 0 (ws.map HeaderField.struct)).length = p
  generalize (u.struct.encode e p).length = n
  cases ws' with
  | nil =>
    simp [encodes]
  | cons w ws' =>
    have h1 := header_fields_length e w ws' p
    have h2 := header_fields_length e w ws' (p + n)
    have hm : alignTo p 8 ≤ alignTo (p + n) 8 := by
      exact Nat.mul_le_mul_right 8 (Nat.div_le_div_right (by omega))
    omega

theorem message_parse_fields_meanings (e : Endian) (ws : List HeaderField) (mem : Bool)
    (type : UInt8) (n_fds : Nat) (got_ctrunc : Bool) (hw : ∀ w ∈ ws, w.Valid ∧ w.passes = true)
    (hl : (header_fields e ws).length ≤ BUS_ARRAY_MAX_SIZE) :
    message_parse_fields ⟨e, header_fields e ws⟩ mem type n_fds got_ctrunc =
      (HeaderField.meanings mem ws .none >>= fun p =>
        if !n_fds_valid n_fds (p.n_unix_fds_declared.getD 0) got_ctrunc then .err .EBADMSG
        else if !required_fields type p then .err .EBADMSG
        else if claims_local p then .err .EBADMSG
        else .ok p) := by
  have hr := parse_fields_loop_meanings ⟨e, header_fields e ws⟩ mem ws .none hw hl (At.self _)
    (zero_add _) (length_le_header_fields e ws 0)
  exact congrArg (· >>= _) hr

/-- A field that is not known is transparent: its value is skipped exactly,
    and the message is parsed as without it. -/
theorem unknown_field_transparent (e : Endian) (ws ws' : List HeaderField) (u : HeaderField)
    (mem : Bool) (type : UInt8) (n_fds : Nat) (got_ctrunc : Bool)
    (hw : ∀ w ∈ ws ++ u :: ws', w.Valid ∧ w.passes = true) (hu : u.unknown = true)
    (hl : (header_fields e (ws ++ u :: ws')).length ≤ BUS_ARRAY_MAX_SIZE) :
    message_parse_fields ⟨e, header_fields e (ws ++ u :: ws')⟩ mem type n_fds got_ctrunc =
        message_parse_fields ⟨e, header_fields e (ws ++ ws')⟩ mem type n_fds got_ctrunc ∧
      ∀ fields pos, fields.length ≤ BUS_ARRAY_MAX_SIZE →
        At fields pos (u.value.encode e pos) →
        message_skip_fields ⟨e, fields⟩ skip_fields_fuel none u.value.type.sig 0 pos =
          (.ok ⟨⟩, pos + (u.value.encode e pos).length) := by
  obtain ⟨huv, hup⟩ := hw u (by simp)
  have hskip : u.value.skippable 0 = true := by
    have : u.value.type.sig.length ≠ 0xff ∧ u.value.skippable 0 = true := by
      simpa [HeaderField.passes, hu] using hup
    exact this.2
  refine ⟨?_, ?_⟩
  · have hw' : ∀ w ∈ ws ++ ws', w.Valid ∧ w.passes = true := by
      intro w hm
      refine hw w ?_
      rcases mem_append.mp hm with hm | hm
      · exact mem_append_left _ hm
      · exact mem_append_right _ (mem_cons_of_mem _ hm)
    have hl' := le_trans (header_fields_length_le e ws ws' u) hl
    rw [message_parse_fields_meanings e _ mem type n_fds got_ctrunc hw hl,
      message_parse_fields_meanings e _ mem type n_fds got_ctrunc hw' hl',
      HeaderField.meanings_append, HeaderField.meanings_append]
    have hm : HeaderField.meanings mem (u :: ws') = HeaderField.meanings mem ws' := by
      funext p
      rw [HeaderField.meanings, HeaderField.meaning_unknown mem u p hu hup]
      rfl
    rw [hm]
  · intro fields pos hf hat
    exact message_skip_fields_exact (f := ⟨e, fields⟩) huv.1 huv.2.1.alone hskip hf hat

/-- The number of the call that a message replies to. -/
def reply_serial : HeaderField := ⟨BUS_MESSAGE_HEADER_REPLY_SERIAL, .basic (.fixed .uint32 1)⟩

theorem reply_serial_valid : reply_serial.Valid :=
  ⟨(by decide : 1 < 256 ^ 4), trivial, by decide⟩

/-- A field that is not known, with an array in a variant. -/
def unknown_array : HeaderField :=
  ⟨10, .variant (.array (.basic .string) [.basic (.string (ascii "x"))])⟩

/-- A reply with this field, before and after its serial number. -/
theorem unknown_field_transparent_array :
    message_parse_fields ⟨.little, header_fields .little [reply_serial, unknown_array]⟩ true
        SD_BUS_MESSAGE_METHOD_RETURN 0 false =
      message_parse_fields ⟨.little, header_fields .little [reply_serial]⟩ true
        SD_BUS_MESSAGE_METHOD_RETURN 0 false := by
  have hs : unknown_array.Valid := by
    refine ⟨⟨⟨⟨?_, trivial⟩, ?_⟩, ⟨by decide, trivial⟩, by decide⟩, trivial, by decide⟩
    · exact ⟨by decide, by decide +kernel, by decide⟩
    · simp [types, type, BasicValue.type]
  refine (unknown_field_transparent .little [reply_serial] [] unknown_array true
    SD_BUS_MESSAGE_METHOD_RETURN 0 false ?_ (by decide) (by decide +kernel)).1
  intro w hw
  rcases mem_cons.mp hw with rfl | hw
  · exact ⟨reply_serial_valid, by decide⟩
  · rw [mem_singleton.mp hw]
    exact ⟨hs, by decide⟩

/-- A byte in this many variants. -/
def nested_variants : Nat → Value
  | 0 => .basic (.fixed .byte 1)
  | n + 1 => .variant (nested_variants n)

theorem nested_variants_valid (n : Nat) :
    (nested_variants n).Valid ∧ (nested_variants n).type.Ok false 0 0 ∧
      (nested_variants n).type.sig.length = 1 := by
  induction n with
  | zero => exact ⟨(by decide : 1 < 256 ^ 1), trivial, rfl⟩
  | succ n ih =>
    refine ⟨⟨ih.1, ih.2.1, ?_⟩, trivial, rfl⟩
    rw [ih.2.2]
    decide

/-- A value that is nested as deeply as containers may be is not skipped, and
    the message is refused. -/
theorem unknown_field_refused :
    ¬ ∀ (e : Endian) (ws ws' : List HeaderField) (u : HeaderField) (mem : Bool) (type : UInt8)
      (n_fds : Nat) (got_ctrunc : Bool), (∀ w ∈ ws ++ u :: ws', w.Valid) → u.unknown = true →
      (header_fields e (ws ++ u :: ws')).length ≤ BUS_ARRAY_MAX_SIZE →
      message_parse_fields ⟨e, header_fields e (ws ++ u :: ws')⟩ mem type n_fds got_ctrunc =
        message_parse_fields ⟨e, header_fields e (ws ++ ws')⟩ mem type n_fds got_ctrunc := by
  intro h
  have hv := nested_variants_valid BUS_CONTAINER_DEPTH
  have hu := h .little [reply_serial] [] ⟨10, nested_variants BUS_CONTAINER_DEPTH⟩ true
    SD_BUS_MESSAGE_METHOD_RETURN 0 false ?_ rfl (by decide +kernel)
  · have hne : message_parse_fields ⟨.little, header_fields .little ([reply_serial] ++
        [⟨10, nested_variants BUS_CONTAINER_DEPTH⟩])⟩ true SD_BUS_MESSAGE_METHOD_RETURN 0 false ≠
        message_parse_fields ⟨.little, header_fields .little ([reply_serial] ++ [])⟩ true
        SD_BUS_MESSAGE_METHOD_RETURN 0 false := by
      decide +kernel
    exact hne hu
  · intro w hw
    rcases mem_cons.mp hw with rfl | hw
    · exact reply_serial_valid
    · rw [mem_singleton.mp hw]
      exact ⟨hv.1, hv.2.1, by rw [hv.2.2]; decide⟩

end SdCompat.Bus
