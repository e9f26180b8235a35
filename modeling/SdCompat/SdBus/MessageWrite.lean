import SdCompat.SdBus.MessageNew
import SdCompat.SdBus.MessageReadBack

/-! # What is written are values

    While a message is written, its body is at every moment the marshalled form
    of some complete values and of the containers that are open: a step of the
    writer puts a value or an open container behind what is there, or turns the
    last open container into a value.
-/

open Bytes

namespace SdCompat.Bus

open Call List Value Ty Nat BasicType
open SdBusMessage (update_last last_container)

/-! ## Section 1: Calls of the writer -/

/-- The calls that write the body. -/
inductive WriteCall where
  | append_basic (env : AppendEnv) (a : BasicArg)
  | open_container (env : AppendEnv) (type : UInt8) (contents : List UInt8)
  | close_container

/-- What is read of an argument; a file descriptor is copied. -/
def BasicArg.read (env : AppendEnv) : BasicArg → ReadValue
  | fixed _ n => .number n
  | boolean p => .number (if p.getD 0 ≠ 0 then 1 else 0)
  | string p => .string (p.getD [])
  | object_path p => .string (p.getD [])
  | signature p => .string (p.getD [])
  | unix_fd _ =>
    match env.dup with
    | .ok copy => .unix_fd copy
    | .error _ => .number 0
  | not_basic _ => .number 0

/-- The argument is what a pointer can point to: a number has the width of its
    type, and a string ends at its NUL. -/
def BasicArg.Pointed : BasicArg → Prop
  | fixed t n => n < 256 ^ (bus_type_get_size t.code).getD 1
  | string p => 0 ∉ p.getD []
  | object_path p => 0 ∉ p.getD []
  | signature p => 0 ∉ p.getD []
  | _ => True

namespace WriteCall

def run : WriteCall → Call SdBusMessage PUnit
  | append_basic env a => sd_bus_message_append_basic env a
  | open_container env type contents => sd_bus_message_open_container env type contents
  | close_container => sd_bus_message_close_container

/-- What the call puts into the message. -/
def event : WriteCall → MessageEvent
  | append_basic env a => .basic a.type (a.read env)
  | open_container _ type contents => .enter type contents
  | close_container => .exit

def Pointed : WriteCall → Prop
  | append_basic _ a => a.Pointed
  | _ => True

/-- The call keeps to the limits of the reader: no signature of 255 characters,
    no container too deep, no array too large. -/
def Within (m : SdBusMessage) : WriteCall → Prop
  | append_basic _ (.signature p) => (p.getD []).length < 0xff
  | append_basic _ _ => True
  | open_container _ type contents =>
    m.containers.length < BUS_CONTAINER_DEPTH ∧
      (type = SD_BUS_TYPE_VARIANT → contents.length < 0xff)
  | close_container =>
    ∀ a, m.last_container.array_size = some a →
      toNat BUS_NATIVE_ENDIAN (slice m.body a 4) ≤ BUS_ARRAY_MAX_SIZE

end WriteCall

/-- One call after another; the first that fails ends it. -/
def write_all : List WriteCall → Call SdBusMessage PUnit
  | [] => pure ⟨⟩
  | c :: cs => do
    c.run
    write_all cs

/-- All calls keep to the limits. -/
def AllWithin (m : SdBusMessage) : List WriteCall → Prop
  | [] => True
  | c :: cs => c.Within m ∧ AllWithin (c.run m).2 cs

instance : DecidablePred BasicArg.Pointed
  | .fixed t n => inferInstanceAs (Decidable (n < 256 ^ (bus_type_get_size t.code).getD 1))
  | .string p => inferInstanceAs (Decidable (0 ∉ p.getD []))
  | .object_path p => inferInstanceAs (Decidable (0 ∉ p.getD []))
  | .signature p => inferInstanceAs (Decidable (0 ∉ p.getD []))
  | .boolean _ => inferInstanceAs (Decidable True)
  | .unix_fd _ => inferInstanceAs (Decidable True)
  | .not_basic _ => inferInstanceAs (Decidable True)

instance : DecidablePred WriteCall.Pointed
  | .append_basic _ a => inferInstanceAs (Decidable a.Pointed)
  | .open_container _ _ _ => inferInstanceAs (Decidable True)
  | .close_container => inferInstanceAs (Decidable True)

instance (m : SdBusMessage) : DecidablePred (WriteCall.Within m)
  | .append_basic _ (.signature p) => inferInstanceAs (Decidable ((p.getD []).length < 0xff))
  | .append_basic _ (.fixed _ _) => inferInstanceAs (Decidable True)
  | .append_basic _ (.string _) => inferInstanceAs (Decidable True)
  | .append_basic _ (.object_path _) => inferInstanceAs (Decidable True)
  | .append_basic _ (.boolean _) => inferInstanceAs (Decidable True)
  | .append_basic _ (.unix_fd _) => inferInstanceAs (Decidable True)
  | .append_basic _ (.not_basic _) => inferInstanceAs (Decidable True)
  | .open_container _ type contents =>
    inferInstanceAs (Decidable (m.containers.length < BUS_CONTAINER_DEPTH ∧
      (type = SD_BUS_TYPE_VARIANT → contents.length < 0xff)))
  | .close_container =>
    inferInstanceAs (Decidable (∀ a ∈ m.last_container.array_size,
      toNat BUS_NATIVE_ENDIAN (slice m.body a 4) ≤ BUS_ARRAY_MAX_SIZE))

def decidable_all_within : (cs : List WriteCall) → (m : SdBusMessage) → Decidable (AllWithin m cs)
  | [], _ => inferInstanceAs (Decidable True)
  | c :: cs, m =>
    have := decidable_all_within cs (c.run m).2
    inferInstanceAs (Decidable (c.Within m ∧ AllWithin (c.run m).2 cs))

instance (m : SdBusMessage) (cs : List WriteCall) : Decidable (AllWithin m cs) :=
  decidable_all_within cs m

/-! ## Section 2: Open containers -/

/-- The kinds of containers, with the types of what is inside. -/
inductive ContainerKind where
  | array (elem : Ty)
  | variant (t : Ty)
  | struct (members : List Ty)
  | dict_entry (key : BasicType) (value : Ty)

namespace ContainerKind

/-- The type of a container of this kind. -/
def ty : ContainerKind → Ty
  | array elem => .array elem
  | variant _ => .variant
  | struct members => .struct members
  | dict_entry key value => .dict_entry key value

def contents : ContainerKind → List Ty
  | array elem => [elem]
  | variant t => [t]
  | struct members => members
  | dict_entry key value => [.basic key, value]

/-- Where what is inside begins, if the container starts at this offset. -/
def begin (pos : Nat) : ContainerKind → Nat
  | array elem => alignTo (alignTo pos 4 + 4) elem.align
  | variant t => pos + (t.sig.length + 2)
  | _ => alignTo pos 8

/-- The bytes before what is inside; `stop` is where it ends. -/
def head (pos stop : Nat) : ContainerKind → List UInt8
  | array elem =>
    zeroes pos 4 ++ in_host_order 4 (stop - alignTo (alignTo pos 4 + 4) elem.align) ++
      zeroes (alignTo pos 4 + 4) elem.align
  | variant t => in_host_order 1 t.sig.length ++ (t.sig ++ [0])
  | _ => zeroes pos 8

/-- Where the length of an array is. -/
def array_size (pos : Nat) : ContainerKind → Option Nat
  | array _ => some (alignTo pos 4)
  | _ => none

/-- The values may be inside. -/
def Holds (k : ContainerKind) (ts : List Ty) : Prop :=
  match k with
  | array elem => ∀ t ∈ ts, t = elem
  | k => ts <+: k.contents

theorem length_head (k : ContainerKind) (pos stop : Nat) :
    pos + (k.head pos stop).length = k.begin pos := by
  cases k with
  | array elem =>
    have h1 := add_padding (n := pos) (by decide : 0 < 4)
    have h2 := add_padding (n := alignTo pos 4 + 4) elem.align_pos
    simp only [head, begin, in_host_order, length_append, length_zeroes, length_ofNat]
    omega
  | variant t => simp [head, begin, in_host_order]; omega
  | struct members =>
    show pos + (zeroes pos 8).length = _
    rw [length_zeroes, add_padding (by decide)]
    rfl
  | dict_entry key value =>
    show pos + (zeroes pos 8).length = _
    rw [length_zeroes, add_padding (by decide)]
    rfl

theorem length_head_eq (k : ContainerKind) (pos stop stop' : Nat) :
    (k.head pos stop).length = (k.head pos stop').length := by
  have h := k.length_head pos stop
  have h' := k.length_head pos stop'
  omega

/-- The container with these values inside is this value. -/
inductive Closes : ContainerKind → List Value → Value → Prop
  | array (elem : Ty) (vs : List Value) : Closes (.array elem) vs (.array elem vs)
  | variant (v : Value) : Closes (.variant v.type) [v] (.variant v)
  | struct (vs : List Value) : Closes (.struct (types vs)) vs (.struct vs)
  | dict_entry (key : BasicValue) (value : Value) :
    Closes (.dict_entry key.type value.type) [.basic key, value] (.dict_entry key value)

section closes
variable {k : ContainerKind} {vs : List Value} {v : Value}

theorem Closes.type (h : Closes k vs v) : v.type = k.ty := by
  cases h <;> rfl

/-- The marshalled value is the head of the container, and what is inside. -/
theorem Closes.encode (h : Closes k vs v) (pos : Nat) : v.encode BUS_NATIVE_ENDIAN pos =
      k.head pos (k.begin pos + (encodes BUS_NATIVE_ENDIAN (k.begin pos) vs).length) ++
        encodes BUS_NATIVE_ENDIAN (k.begin pos) vs := by
  cases h with
  | array elem vs =>
    rw [encode]
    unfold head begin in_host_order
    dsimp only
    rw [Nat.add_sub_cancel_left]
  | variant v =>
    rw [encode, encodes, encodes, append_nil]
    rfl
  | struct vs =>
    rfl
  | dict_entry key value =>
    rw [dict_entry_encode, encodes_pair]
    rfl

theorem Closes.events (h : Closes k vs v) (fds : List Int) : v.events fds =
      .enter k.ty.code (sigs k.contents) :: (all_events fds vs ++ [.exit]) := by
  cases h with
  | array elem vs =>
    have hs : sigs (ContainerKind.array elem).contents = elem.sig := append_nil _
    rw [events, hs]
    rfl
  | variant v =>
    have hs : sigs (ContainerKind.variant v.type).contents = v.type.sig := append_nil _
    rw [events, all_events, all_events, append_nil, hs]
    rfl
  | struct vs => rfl
  | dict_entry key value =>
    have hs : sigs (ContainerKind.dict_entry key.type value.type).contents =
        key.type.code :: value.type.sig := by
      simp [contents, sigs, sig]
    rw [events, all_events, all_events, all_events, append_nil, hs]
    rfl

end closes

/-- A container that has all it is to hold is a value. -/
theorem exists_closes {k : ContainerKind} {vs : List Value}
    (hfull : (∀ elem, k ≠ .array elem) → types vs = k.contents) : ∃ v, Closes k vs v := by
  have hsingle : ∀ {ts : List Value} {t : Ty}, types ts = [t] →
      ∃ v, ts = [v] ∧ v.type = t := by
    intro ts t hts
    match ts with
    | [v] => exact ⟨v, rfl, (cons.inj hts).1⟩
    | _ :: _ :: _ => cases (cons.inj hts).2
  cases k with
  | array elem => exact ⟨_, .array elem vs⟩
  | variant t =>
    obtain ⟨v, rfl, rfl⟩ := hsingle (hfull (by simp))
    exact ⟨_, .variant v⟩
  | struct members =>
    have hm : types vs = members := hfull (by simp)
    rw [← hm]
    exact ⟨_, .struct vs⟩
  | dict_entry key value =>
    have hm : types vs = [.basic key, value] := hfull (by simp)
    match vs with
    | [v, w] =>
      obtain ⟨hk, hr⟩ := cons.inj hm
      obtain ⟨hv, -⟩ := cons.inj hr
      cases v with
      | basic b =>
        cases hk
        cases hv
        exact ⟨_, .dict_entry b w⟩
      | variant v => cases hk
      | array elem vs => cases hk
      | struct vs => cases hk
      | dict_entry key value => cases hk
    | [] => cases hm
    | [_] => cases (cons.inj hm).2
    | _ :: _ :: _ :: _ => cases (cons.inj (cons.inj hm).2).2

end ContainerKind

/-! ## Section 3: What has been written -/

/-- A container that is open, and the values it has in it. -/
structure Frame where
  kind : ContainerKind
  done : List Value

/-- What has been written: the values that are complete, and the open
    containers, the last one first. -/
structure Draft where
  root : List Value
  frames : List Frame

namespace Draft

/-- The bytes of what has been written, if it ends at `stop`. -/
def frames_body (stop : Nat) (root : List Value) : List Frame → List UInt8
  | [] => encodes BUS_NATIVE_ENDIAN 0 root
  | f :: fs =>
    frames_body stop root fs ++ f.kind.head (frames_body stop root fs).length stop ++
      encodes BUS_NATIVE_ENDIAN (f.kind.begin (frames_body stop root fs).length) f.done

def body (stop : Nat) (d : Draft) : List UInt8 := frames_body stop d.root d.frames

/-- Put a value behind what has been written. -/
def push (v : Value) (d : Draft) : Draft :=
  match d.frames with
  | [] => { d with root := d.root ++ [v] }
  | f :: fs => { d with frames := { f with done := f.done ++ [v] } :: fs }

/-- Open a container. -/
def enter (k : ContainerKind) (d : Draft) : Draft := { d with frames := ⟨k, []⟩ :: d.frames }

/-- What a reader would see of it. -/
def frames_events (fds : List Int) (root : List Value) : List Frame → List MessageEvent
  | [] => all_events fds root
  | f :: fs =>
    frames_events fds root fs ++ .enter f.kind.ty.code (sigs f.kind.contents) ::
      all_events fds f.done

def events (fds : List Int) (d : Draft) : List MessageEvent :=
  frames_events fds d.root d.frames

/-- The offsets of the lengths of the open arrays. -/
def frames_arrays (root : List Value) : List Frame → List Nat
  | [] => []
  | f :: fs =>
    (f.kind.array_size (frames_body 0 root fs).length).toList ++ frames_arrays root fs

variable {stop stop' : Nat} {root : List Value} {fs : List Frame}

theorem frames_body_length (stop stop' : Nat) (root : List Value) (fs : List Frame) :
    (frames_body stop root fs).length = (frames_body stop' root fs).length := by
  induction fs with
  | nil => rfl
  | cons f fs ih =>
    rw [frames_body, frames_body]
    simp only [length_append, ih]
    rw [f.kind.length_head_eq _ stop stop']

theorem body_length (stop stop' : Nat) (d : Draft) : (d.body stop).length = (d.body stop').length :=
  frames_body_length stop stop' d.root d.frames

theorem length_frames_body_cons (stop : Nat) (f : Frame) :
    (frames_body stop root (f :: fs)).length =
      f.kind.begin (frames_body stop root fs).length + (encodes BUS_NATIVE_ENDIAN
        (f.kind.begin (frames_body stop root fs).length) f.done).length := by
  rw [frames_body, length_append, length_append, ContainerKind.length_head]

/-- A value is put behind what is there. -/
theorem body_push (stop : Nat) (d : Draft) (v : Value) :
    (d.push v).body stop = d.body stop ++ v.encode BUS_NATIVE_ENDIAN (d.body stop).length := by
  obtain ⟨root, fs⟩ := d
  have hone : ∀ pos, encodes BUS_NATIVE_ENDIAN pos [v] =
      v.encode BUS_NATIVE_ENDIAN pos := by
    intro pos
    rw [encodes, encodes, append_nil]
  cases fs with
  | nil =>
    show encodes BUS_NATIVE_ENDIAN 0 (root ++ [v]) = encodes BUS_NATIVE_ENDIAN 0 root ++
      v.encode BUS_NATIVE_ENDIAN (encodes BUS_NATIVE_ENDIAN 0 root).length
    rw [encodes_append, hone, zero_add]
  | cons f fs =>
    show frames_body stop root (⟨f.kind, f.done ++ [v]⟩ :: fs) = frames_body stop root (f :: fs) ++
      v.encode BUS_NATIVE_ENDIAN (frames_body stop root (f :: fs)).length
    rw [length_frames_body_cons, frames_body, frames_body, encodes_append, hone]
    simp only [append_assoc]

theorem body_enter (stop : Nat) (d : Draft) (k : ContainerKind) :
    (d.enter k).body stop = d.body stop ++ k.head (d.body stop).length stop := by
  show frames_body stop d.root (⟨k, []⟩ :: d.frames) = _
  rw [frames_body, encodes, append_nil]
  rfl

variable {k : ContainerKind} {vs : List Value}

variable {v : Value}

/-- An open container that ends here is a value. -/
theorem body_close (hk : k.Closes vs v) (h : stop = (frames_body stop root (⟨k, vs⟩ :: fs)).length) :
    frames_body stop root (⟨k, vs⟩ :: fs) = (push v ⟨root, fs⟩).body stop := by
  rw [length_frames_body_cons] at h
  rw [body_push, frames_body, hk.encode]
  show _ = frames_body stop root fs ++ (k.head (frames_body stop root fs).length
    (k.begin (frames_body stop root fs).length + (encodes BUS_NATIVE_ENDIAN
      (k.begin (frames_body stop root fs).length) vs).length) ++ encodes BUS_NATIVE_ENDIAN
      (k.begin (frames_body stop root fs).length) vs)
  rw [← h, append_assoc]

theorem events_push (fds : List Int) (d : Draft) (v : Value) :
    (d.push v).events fds = d.events fds ++ v.events fds := by
  have happ : ∀ vs : List Value, all_events fds (vs ++ [v]) =
      all_events fds vs ++ v.events fds := by
    intro vs
    induction vs with
    | nil => simp [all_events]
    | cons w vs ih => rw [cons_append, all_events, ih, all_events,
        append_assoc]
  obtain ⟨root, fs⟩ := d
  cases fs with
  | nil => exact happ root
  | cons f fs =>
    show frames_events fds root (⟨f.kind, f.done ++ [v]⟩ :: fs) = _
    rw [frames_events, happ]
    show _ = frames_events fds root (f :: fs) ++ _
    rw [frames_events]
    simp

theorem events_enter (fds : List Int) (d : Draft) (k : ContainerKind) : (d.enter k).events fds =
      d.events fds ++ [.enter k.ty.code (sigs k.contents)] := rfl

theorem events_close (hk : k.Closes vs v) (fds : List Int) :
    (push v ⟨root, fs⟩).events fds = frames_events fds root (⟨k, vs⟩ :: fs) ++ [.exit] := by
  rw [events_push, frames_events, hk.events]
  simp [events]

/-! ### The lengths of the open arrays -/

/-- The length of an array is between its padding and the padding before its
    elements. -/
theorem head_split (elem : Ty) (stop : Nat) (a c : List UInt8) :
    a ++ ContainerKind.head a.length stop (.array elem) ++ c = (a ++ zeroes a.length 4) ++
        in_host_order 4 (stop - ContainerKind.begin a.length (.array elem)) ++
        (zeroes (alignTo a.length 4 + 4) elem.align ++ c) := by
  unfold ContainerKind.head ContainerKind.begin
  simp only [append_assoc]

theorem length_before_word (a : List UInt8) :
    (a ++ zeroes a.length 4).length = alignTo a.length 4 := by
  rw [length_append, length_zeroes, add_padding (by decide)]

/-- The length of an array is there to be read. -/
theorem array_word (elem : Ty) (stop : Nat) (a c : List UInt8) :
    slice (a ++ ContainerKind.head a.length stop (.array elem) ++ c) (alignTo a.length 4) 4 =
      in_host_order 4 (stop - ContainerKind.begin a.length (.array elem)) := by
  have hslice := slice_middle (a ++ zeroes a.length 4)
    (in_host_order 4 (stop - ContainerKind.begin a.length (.array elem)))
    (zeroes (alignTo a.length 4 + 4) elem.align ++ c)
  have hlen : (in_host_order 4 (stop - ContainerKind.begin a.length (.array elem))).length = 4 :=
    length_ofNat _ _ _
  rw [hlen, length_before_word] at hslice
  rw [head_split, hslice]

variable {expand : Nat}

/-- The length of an array is made longer. -/
theorem add_array_size_head {elem : Ty} (a c : List UInt8)
    (hle : ContainerKind.begin a.length (.array elem) ≤ stop) (hlt : stop + expand ≤ 0xffffffff) :
    add_array_size expand (a ++ ContainerKind.head a.length stop (.array elem) ++ c)
        (alignTo a.length 4) =
      a ++ ContainerKind.head a.length (stop + expand) (.array elem) ++ c := by
  have hreplace := replace_middle (a ++ zeroes a.length 4)
    (in_host_order 4 (stop - ContainerKind.begin a.length (.array elem)))
    (zeroes (alignTo a.length 4 + 4) elem.align ++ c)
    (in_host_order 4 (stop + expand - ContainerKind.begin a.length (.array elem)))
    (by simp [in_host_order])
  have hsum : stop - ContainerKind.begin a.length (.array elem) + expand =
      stop + expand - ContainerKind.begin a.length (.array elem) := by
    omega
  rw [length_before_word] at hreplace
  unfold add_array_size
  rw [array_word, head_split elem stop, head_split elem (stop + expand), ← hreplace]
  unfold in_host_order
  rw [toNat_ofNat _ (by omega), hsum]

/-- Induction over the open containers: when something is put behind what is
    there, the lengths of the open arrays are those for the new end. -/
theorem fold_arrays (hle : (frames_body 0 root fs).length ≤ stop) (hlt : stop + expand ≤ 0xffffffff)
    (c : List UInt8) :
    (frames_arrays root fs).foldl (add_array_size expand) (frames_body stop root fs ++ c) =
      frames_body (stop + expand) root fs ++ c := by
  induction fs generalizing c with
  | nil => rfl
  | cons f fs ih =>
    rw [length_frames_body_cons] at hle
    have hbegin := f.kind.length_head (frames_body 0 root fs).length 0
    have hlen := frames_body_length stop 0 root fs
    have hlen' := frames_body_length (stop + expand) 0 root fs
    have hih := fun c => ih (by omega) c
    rw [frames_body, frames_body, frames_arrays]
    cases hk : f.kind with
    | array elem =>
      rw [hk] at hle
      show (frames_arrays root fs).foldl _ (add_array_size expand _
        (alignTo (frames_body 0 root fs).length 4)) = _
      rw [← hlen, append_assoc, add_array_size_head _ _ (by rw [hlen]; omega) hlt,
        append_assoc, hih]
      simp only [hlen, hlen', append_assoc]
    | variant t =>
      show (frames_arrays root fs).foldl (add_array_size expand)
        (frames_body stop root fs ++ _ ++ _ ++ c) = _
      rw [append_assoc, append_assoc, hih]
      simp only [hlen, hlen', append_assoc]
      rfl
    | struct members =>
      show (frames_arrays root fs).foldl (add_array_size expand)
        (frames_body stop root fs ++ _ ++ _ ++ c) = _
      rw [append_assoc, append_assoc, hih]
      simp only [hlen, hlen', append_assoc]
      rfl
    | dict_entry key value =>
      show (frames_arrays root fs).foldl (add_array_size expand)
        (frames_body stop root fs ++ _ ++ _ ++ c) = _
      rw [append_assoc, append_assoc, hih]
      simp only [hlen, hlen', append_assoc]
      rfl

end Draft

/-! ## Section 4: What the calls do -/

section runs
variable {env : AppendEnv} {m m' m₁ : SdBusMessage}

/-- The container is next in the signature, or the top-level signature is made
    longer. -/
theorem next_in_signature_ok {c : BusMessageContainer} {same : Bool} {t : List UInt8}
    (h : next_in_signature env c same t m = (.ok ⟨⟩, m')) :
    (c.current ≠ none ∧ same = true ∧ m' = m) ∨ (c.current = none ∧ c.enclosing = 0 ∧
      m' = m.update_last fun c => { c with signature := c.signature ++ t }) := by
  unfold next_in_signature at h
  cases hc : c.current with
  | some x =>
    rw [hc] at h
    cases same with
    | true =>
      cases h
      exact .inl ⟨by simp, rfl, rfl⟩
    | false => cases h
  | none =>
    rw [hc] at h
    obtain ⟨he, h⟩ := of_check_bind_ok h
    unfold extend_signature at h
    cases hs : env.signature with
    | true =>
      rw [hs] at h
      cases h
      exact .inr ⟨rfl, beq_iff_eq.mp he, rfl⟩
    | false =>
      rw [hs] at h
      cases h

variable {data : List UInt8}

variable {align : Nat}

theorem extend_body_ok {mem : Bool} {a : Nat} (h : extend_body mem align data m = (.ok a, m')) :
    a = alignTo m.body.length align ∧ m' = body_extended align data m ∧
      alignTo m.body.length align + data.length ≤ 0xffffffff := by
  obtain ⟨r, m₁, hr, h⟩ := of_bind_ok h
  obtain ⟨m₂, hf, -⟩ | ⟨hok, hle⟩ := message_extend_body_cases mem align data m
  · rw [hf] at hr
    cases hr
    cases h
  · rw [hok] at hr
    cases hr
    cases h
    exact ⟨rfl, rfl, hle⟩

/-- The value that an argument is, where so many file descriptors are in the
    message already. -/
def BasicArg.value (n_fds : Nat) : BasicArg → BasicValue
  | fixed t n => .fixed t n
  | boolean p => .boolean (p.getD 0 ≠ 0)
  | string p => .string (p.getD [])
  | object_path p => .object_path (p.getD [])
  | signature p => .signature (p.getD [])
  | unix_fd _ => .unix_fd n_fds
  | not_basic _ => .boolean false

theorem message_push_fd_ok {fd copy : Int} (h : message_push_fd env fd m = (.ok copy, m')) :
    env.dup = .ok copy ∧ m' = m := by
  unfold message_push_fd at h
  by_cases hneg : fd < 0
  · rw [if_pos hneg] at h
    cases h
  rw [if_neg hneg, get_bind_run] at h
  cases ha : m.allow_fds with
  | false =>
    rw [ha] at h
    cases h
  | true =>
    rw [ha] at h
    cases hd : env.dup with
    | error e =>
      rw [hd] at h
      cases h
    | ok c =>
      rw [hd] at h
      cases hf : env.fds with
      | false =>
        rw [hf] at h
        cases h
      | true =>
        rw [hf] at h
        cases h
        exact ⟨rfl, rfl⟩

/-- What is written is the marshalled value of the argument, and what is read
    of the value, with the file descriptors there will be, is the argument. -/
theorem basic_data_ok {a : BasicArg} {fd : Option Int} (hp : a.Pointed)
    (hf : m.fds.length < 256 ^ 4) (h : basic_data env a m = (.ok (align, data, fd), m'))
    (hl : data.length ≤ 0xffffffff) : m' = m ∧ (a.value m.fds.length).type.code = a.type ∧
      align = (a.value m.fds.length).type.align ∧
      data = (a.value m.fds.length).encode BUS_NATIVE_ENDIAN ∧
      (a.value m.fds.length).Valid ∧ 4 * fd.toList.length ≤ data.length ∧
      ∀ F, m.fds ++ fd.toList <+: F →
        (a.value m.fds.length).read F = a.read env ∧ (a.value m.fds.length).has_fd F.length := by
  have htext : ∀ (w : Nat) (s : List UInt8),
      in_host_order w s.length ++ s ++ [0] =
        ofNat BUS_NATIVE_ENDIAN w s.length ++ (s ++ [0]) := by
    intro w s
    rw [append_assoc]
    rfl
  cases a with
  | fixed t n =>
    have hs : bus_type_get_size t.code = some ((bus_type_get_size t.code).getD 1) := by
      cases t <;> rfl
    have ha : bus_type_get_alignment t.code = some (fixed t).align :=
      (fixed t).code_alignment
    unfold basic_data at h
    dsimp only at h
    rw [hs, ha] at h
    cases h
    exact ⟨rfl, rfl, rfl, rfl, hp, zero_le _, fun F _ => ⟨rfl, trivial⟩⟩
  | boolean p =>
    cases h
    refine ⟨rfl, rfl, rfl, ?_, trivial, zero_le _, fun F _ => ⟨?_, trivial⟩⟩
    · by_cases hb : p.getD 0 = 0
      · simp [BasicArg.value, BasicValue.encode, in_host_order]
      · simp [BasicArg.value, BasicValue.encode, in_host_order]
    · by_cases hb : p.getD 0 = 0
      · simp [BasicArg.value, BasicValue.read, BasicArg.read]
      · simp [BasicArg.value, BasicValue.read, BasicArg.read]
  | string p =>
    unfold basic_data at h
    dsimp only at h
    cases hu : utf8_is_valid (p.getD []) with
    | false =>
      rw [hu] at h
      cases h
    | true =>
      rw [hu] at h
      cases h
      have hlt : (p.getD []).length < 0xffffffff := by
        simp only [in_host_order, length_append, length_ofNat, length_cons,
          length_nil] at hl
        omega
      exact ⟨rfl, rfl, rfl, htext 4 _, ⟨hp, hu, hlt⟩, zero_le _, fun F _ => ⟨rfl, trivial⟩⟩
  | object_path p =>
    cases p with
    | none => cases h
    | some s =>
      unfold basic_data at h
      dsimp only at h
      cases hu : object_path_is_valid s with
      | false =>
        rw [hu] at h
        cases h
      | true =>
        rw [hu] at h
        cases h
        exact ⟨rfl, rfl, rfl, htext 4 _, ⟨hp, hu⟩, zero_le _, fun F _ => ⟨rfl, trivial⟩⟩
  | signature p =>
    unfold basic_data at h
    dsimp only at h
    cases hu : signature_is_valid (p.getD []) true with
    | false =>
      rw [hu] at h
      cases h
    | true =>
      rw [hu] at h
      cases h
      exact ⟨rfl, rfl, rfl, htext 1 _, ⟨hp, hu⟩, zero_le _, fun F _ => ⟨rfl, trivial⟩⟩
  | unix_fd p =>
    cases p with
    | none => cases h
    | some fd0 =>
      obtain ⟨c, m₁, hc, hrest⟩ := of_bind_ok h
      obtain ⟨hd, rfl⟩ := message_push_fd_ok hc
      cases hrest
      refine ⟨rfl, rfl, rfl, rfl, hf, by simp [in_host_order], fun F hF => ?_⟩
      obtain ⟨r, rfl⟩ := hF
      constructor
      · show ReadValue.unix_fd ((m'.fds ++ [c] ++ r).getD m'.fds.length 0) = _
        rw [BasicArg.read, hd]
        simp
      · show m'.fds.length < (m'.fds ++ [c] ++ r).length
        simp only [length_append, length_cons]
        omega
  | not_basic t => cases h

end runs

/-! ## Section 5: The message and what has been written -/

theorem types_append (vs ws : List Value) : types (vs ++ ws) = types vs ++ types ws := by
  induction vs with
  | nil => rfl
  | cons v vs ih => rw [cons_append, types, types, ih, cons_append]

/-- A container of the message is this open container. Its index is behind the
    values in it and behind those that are `pending`. -/
structure OpenAs (c : BusMessageContainer) (f : Frame) (pending : List Ty) (pos : Nat) : Prop where
  enclosing : c.enclosing = f.kind.ty.code
  signature : c.signature = sigs f.kind.contents
  index : c.index = if c.enclosing = SD_BUS_TYPE_ARRAY then 0
    else (sigs (types f.done ++ pending)).length
  array_size : c.array_size = f.kind.array_size pos
  holds : f.kind.Holds (types f.done ++ pending)

/-- The top-level container. -/
structure RootAs (c : BusMessageContainer) (root : List Value) (pending : List Ty) : Prop where
  enclosing : c.enclosing = 0
  signature : c.signature = sigs (types root ++ pending)
  index : c.index = c.signature.length
  no_dict : ∀ t ∈ types root ++ pending, ∀ key value, t ≠ .dict_entry key value

/-- The containers of the message are the open containers. -/
def Stack (rc : BusMessageContainer) (root : List Value) :
    List BusMessageContainer → List Frame → List Ty → Prop
  | [], [], pending => RootAs rc root pending
  | c :: cs, f :: fs, pending =>
    OpenAs c f pending (Draft.frames_body 0 root fs).length ∧ Stack rc root cs fs [f.kind.ty]
  | _, _, _ => False

/-- The containers of this message. -/
def Stacked (m : SdBusMessage) (d : Draft) (pending : List Ty) : Prop :=
  Stack m.root_container d.root m.containers d.frames pending

namespace ContainerKind

theorem code_ne_zero (k : ContainerKind) : k.ty.code ≠ 0 := by
  intro h
  cases k <;> cases h

variable {k : ContainerKind}

theorem array_of_code (h : k.ty.code = SD_BUS_TYPE_ARRAY) : ∃ elem, k = .array elem := by
  cases k with
  | array elem => exact ⟨elem, rfl⟩
  | variant t => cases h
  | struct members => cases h
  | dict_entry key value => cases h

variable {ts : List Ty}

/-- In any other container the types are a part of the contents. -/
theorem Holds.prefix (h : k.Holds ts) (hk : k.ty.code ≠ SD_BUS_TYPE_ARRAY) : ts <+: k.contents := by
  cases k with
  | array elem => exact absurd rfl hk
  | variant t => exact h
  | struct members => exact h
  | dict_entry key value => exact h

theorem holds_of_prefix (hk : k.ty.code ≠ SD_BUS_TYPE_ARRAY) (h : ts <+: k.contents) :
    k.Holds ts := by
  cases k with
  | array elem => exact absurd rfl hk
  | variant t => exact h
  | struct members => exact h
  | dict_entry key value => exact h

end ContainerKind

variable {pos : Nat}

/-- The next type in an open container is the one the signature goes on with. -/
theorem OpenAs.next {c : BusMessageContainer} {f : Frame} {t : Ty} (h : OpenAs c f [] pos)
    (ht : t.sig <+: c.signature.drop c.index) : f.kind.Holds (types f.done ++ [t]) := by
  have hholds := h.holds
  rw [append_nil] at hholds
  by_cases ha : f.kind.ty.code = SD_BUS_TYPE_ARRAY
  · obtain ⟨elem, he⟩ := ContainerKind.array_of_code ha
    have hindex : c.index = 0 := by
      rw [h.index, if_pos (h.enclosing.trans ha)]
    rw [hindex, h.signature, he] at ht
    obtain ⟨ts, hts⟩ := sigs_prefix ht
    rw [he] at hholds ⊢
    intro t' ht'
    rcases mem_append.mp ht' with ht' | ht'
    · exact hholds t' ht'
    · rw [mem_singleton.mp ht']
      exact ((cons.inj hts).1).symm
  · obtain ⟨r, hr⟩ := hholds.prefix ha
    have hindex : c.index = (sigs (types f.done)).length := by
      have hne : ¬ c.enclosing = SD_BUS_TYPE_ARRAY := by
        rw [h.enclosing]
        exact ha
      rw [h.index, if_neg hne, append_nil]
    rw [hindex, h.signature, ← hr, sigs_append, drop_left' rfl] at ht
    obtain ⟨ts, rfl⟩ := sigs_prefix ht
    apply ContainerKind.holds_of_prefix ha
    rw [← hr]
    exact ⟨ts, by simp⟩

variable {cs : List BusMessageContainer} {fs : List Frame} {pending : List Ty}
  {rc : BusMessageContainer} {root : List Value}

/-- The open arrays are those of the message. -/
theorem Stack.arrays (h : Stack rc root cs fs pending) :
    cs.filterMap (·.array_size) = Draft.frames_arrays root fs := by
  induction cs generalizing fs pending with
  | nil =>
    cases fs with
    | nil => rfl
    | cons f fs => exact h.elim
  | cons c cs ih =>
    cases fs with
    | nil => exact h.elim
    | cons f fs =>
      obtain ⟨hc, hs⟩ := h
      rw [Draft.frames_arrays, ← ih hs, ← hc.array_size]
      cases ha : c.array_size with
      | none => simp [ha]
      | some a => simp [ha]

theorem Stack.length (h : Stack rc root cs fs pending) : cs.length = fs.length := by
  induction cs generalizing fs pending with
  | nil =>
    cases fs with
    | nil => rfl
    | cons f fs => exact h.elim
  | cons c cs ih =>
    cases fs with
    | nil => exact h.elim
    | cons f fs => rw [length_cons, length_cons, ih h.2]

section stacked
variable {m m₁ m₂ : SdBusMessage} {d : Draft} {t : Ty} {env : AppendEnv}

/-- What comes next is put into the signature, or is there; the index moves
    behind it. -/
theorem Stacked.next {same : Bool} (h : Stacked m d [])
    (hnext : next_in_signature env m.last_container same t.sig m = (.ok ⟨⟩, m₁))
    (hsame : same = true → t.sig <+: m.last_container.signature.drop m.last_container.index)
    (hdict : ∀ key value, t ≠ .dict_entry key value)
    (hc : m₂.containers = m₁.containers) (hr : m₂.root_container = m₁.root_container) :
    Stacked (set_index (m.last_container.index + t.sig.length) m₂) d [t] := by
  unfold Stacked at h ⊢
  obtain ⟨root, fs⟩ := d
  cases hcs : m.containers with
  | nil =>
    cases fs with
    | cons f fs =>
      rw [hcs] at h
      exact h.elim
    | nil =>
      rw [hcs] at h
      have hroot : RootAs m.root_container root [] := h
      have hlast : m.last_container = m.root_container := by
        unfold last_container
        rw [hcs]
        rfl
      rw [hlast] at hnext ⊢
      rcases next_in_signature_ok hnext with ⟨hcur, -, -⟩ | ⟨-, -, rfl⟩
      · refine absurd ?_ hcur
        unfold BusMessageContainer.current
        rw [hroot.index]
        exact getElem?_eq_none (le_refl _)
      · have hc2 : m₂.containers = [] := by
          rw [hc]
          unfold update_last
          rw [hcs]
        have hr2 : m₂.root_container =
            { m.root_container with signature := m.root_container.signature ++ t.sig } := by
          rw [hr]
          unfold update_last
          rw [hcs]
        have hsig : m.root_container.signature ++ t.sig = sigs (types root ++ [t]) := by
          rw [hroot.signature, append_nil, sigs_append, sigs, sigs, append_nil]
        have hne : m.root_container.enclosing ≠ SD_BUS_TYPE_ARRAY := by
          rw [hroot.enclosing]
          decide
        have hlast2 : m₂.last_container = m₂.root_container := by
          unfold last_container
          rw [hc2]
          rfl
        unfold set_index
        rw [hlast2, hr2, if_pos hne]
        unfold update_last
        rw [hc2]
        rw [hr2]
        constructor
        · exact hroot.enclosing
        · exact hsig
        · show m.root_container.index + t.sig.length = (m.root_container.signature ++ t.sig).length
          rw [hroot.index, length_append]
        · intro t' ht'
          rcases mem_append.mp ht' with ht' | ht'
          · exact hroot.no_dict t' (by rw [append_nil]; exact ht')
          · rw [mem_singleton.mp ht']
            exact hdict
  | cons c cs =>
    cases fs with
    | nil =>
      rw [hcs] at h
      exact h.elim
    | cons f fs =>
      rw [hcs] at h
      obtain ⟨hopen, hrest⟩ := h
      have hlast : m.last_container = c := by
        unfold last_container
        rw [hcs]
        rfl
      rw [hlast] at hnext hsame ⊢
      rcases next_in_signature_ok hnext with ⟨-, hs, rfl⟩ | ⟨-, he, -⟩
      · have hholds := hopen.next (hsame hs)
        have hlast2 : m₂.last_container = c := by
          unfold last_container
          rw [hc, hcs]
          rfl
        unfold set_index
        rw [hlast2]
        by_cases ha : c.enclosing = SD_BUS_TYPE_ARRAY
        · rw [if_neg (not_not.mpr ha), hc, hr, hcs]
          refine ⟨⟨hopen.enclosing, hopen.signature, ?_, hopen.array_size, hholds⟩, hrest⟩
          rw [hopen.index, if_pos ha, if_pos ha]
        · rw [if_pos ha]
          unfold update_last
          rw [hc, hcs]
          rw [hr]
          refine ⟨⟨hopen.enclosing, hopen.signature, ?_, hopen.array_size, hholds⟩, hrest⟩
          have hindex := hopen.index
          rw [if_neg ha, append_nil] at hindex
          rw [if_neg ha, hindex, sigs_append, sigs, sigs, append_nil,
            length_append]
      · rw [hopen.enclosing] at he
        exact absurd he f.kind.code_ne_zero

/-- In an array nothing moves. -/
theorem Stacked.next_array (h : Stacked m d [])
    (ha : m.last_container.enclosing = SD_BUS_TYPE_ARRAY)
    (ht : t.sig <+: m.last_container.signature.drop m.last_container.index) : Stacked m d [t] := by
  unfold Stacked at h ⊢
  obtain ⟨root, fs⟩ := d
  cases hcs : m.containers with
  | nil =>
    cases fs with
    | cons f fs =>
      rw [hcs] at h
      exact h.elim
    | nil =>
      rw [hcs] at h
      have hroot : RootAs m.root_container root [] := h
      unfold last_container at ha
      rw [hcs, headD_nil, hroot.enclosing] at ha
      cases ha
  | cons c cs =>
    cases fs with
    | nil =>
      rw [hcs] at h
      exact h.elim
    | cons f fs =>
      rw [hcs] at h
      obtain ⟨hopen, hrest⟩ := h
      have hlast : m.last_container = c := by
        unfold last_container
        rw [hcs]
        rfl
      rw [hlast] at ha ht
      refine ⟨⟨hopen.enclosing, hopen.signature, ?_, hopen.array_size, hopen.next ht⟩, hrest⟩
      rw [hopen.index, if_pos ha, if_pos ha]

/-- The index that is kept in case a container is aborted does not matter. -/
theorem Stacked.saved {pending : List Ty} (h : Stacked m d pending) :
    Stacked (m.update_last fun c => { c with saved_index := c.index }) d pending := by
  unfold Stacked update_last at *
  cases hcs : m.containers with
  | nil =>
    rw [hcs] at h
    cases hfs : d.frames with
    | nil =>
      rw [hfs] at h
      have hroot : RootAs m.root_container d.root pending := h
      exact ⟨hroot.enclosing, hroot.signature, hroot.index, hroot.no_dict⟩
    | cons f fs =>
      rw [hfs] at h
      exact h.elim
  | cons c cs =>
    rw [hcs] at h
    cases hfs : d.frames with
    | nil =>
      rw [hfs] at h
      exact h.elim
    | cons f fs =>
      rw [hfs] at h
      obtain ⟨hopen, hrest⟩ := h
      exact ⟨⟨hopen.enclosing, hopen.signature, hopen.index, hopen.array_size, hopen.holds⟩, hrest⟩

/-- A value that was pending is complete. -/
theorem Stacked.push {v : Value} (h : Stacked m d [v.type]) : Stacked m (d.push v) [] := by
  unfold Stacked at h ⊢
  obtain ⟨root, fs⟩ := d
  cases hcs : m.containers with
  | nil =>
    cases fs with
    | cons f fs =>
      rw [hcs] at h
      exact h.elim
    | nil =>
      rw [hcs] at h
      have hroot : RootAs m.root_container root [v.type] := h
      show RootAs m.root_container (root ++ [v]) []
      constructor
      · exact hroot.enclosing
      · rw [types_append, append_nil]
        exact hroot.signature
      · exact hroot.index
      · rw [types_append, append_nil]
        exact hroot.no_dict
  | cons c cs =>
    cases fs with
    | nil =>
      rw [hcs] at h
      exact h.elim
    | cons f fs =>
      rw [hcs] at h
      obtain ⟨hopen, hrest⟩ := h
      refine ⟨⟨hopen.enclosing, hopen.signature, ?_, hopen.array_size, ?_⟩, hrest⟩
      · rw [types_append, append_nil]
        exact hopen.index
      · rw [types_append, append_nil]
        exact hopen.holds

/-- A container that was pending is open. -/
theorem Stacked.enter {k : ContainerKind} {c : BusMessageContainer} (h : Stacked m d [k.ty])
    (hc : OpenAs c ⟨k, []⟩ [] (d.body 0).length) :
    Stacked { m with containers := c :: m.containers } (d.enter k) [] := ⟨hc, h⟩

end stacked

/-! ## Section 6: Steps of the writer -/

/-- The contents of a variant are a complete type, and not too long. -/
def ContainerKind.Ok : ContainerKind → Prop
  | variant t => t.Ok false 0 0 ∧ t.sig.length < 0xff
  | _ => True

/-- All values that are complete may be sent and can be read, and no container
    is too deep. -/
def Draft.FramesOk (n_fds : Nat) (root : List Value) : List Frame → Prop
  | [] => AllValid root ∧ AllReadable BUS_NATIVE_ENDIAN n_fds 0 0 root
  | f :: fs =>
    FramesOk n_fds root fs ∧ fs.length < BUS_CONTAINER_DEPTH ∧ f.kind.Ok ∧
      AllValid f.done ∧
      AllReadable BUS_NATIVE_ENDIAN n_fds (fs.length + 1)
        (f.kind.begin (Draft.frames_body 0 root fs).length) f.done

variable {vs ws : List Value}

theorem allValid_append (h : AllValid vs) (h' : AllValid ws) : AllValid (vs ++ ws) := by
  induction vs with
  | nil => exact h'
  | cons v vs ih => exact ⟨h.1, ih h.2⟩

theorem allReadable_append {e : Endian} {n_fds depth : Nat} (h : AllReadable e n_fds depth pos vs)
    (h' : AllReadable e n_fds depth (pos + (encodes e pos vs).length) ws) :
    AllReadable e n_fds depth pos (vs ++ ws) := by
  induction vs generalizing pos with
  | nil =>
    exact h'
  | cons v vs ih =>
    rw [encodes, length_append, ← add_assoc] at h'
    exact ⟨h.1, ih h.2 h'⟩

section drafts
variable {n_fds : Nat} {root : List Value} {fs : List Frame} {v : Value}

theorem Draft.FramesOk.push (h : FramesOk n_fds root fs) (hv : v.Valid)
    (hr : v.Readable BUS_NATIVE_ENDIAN n_fds fs.length (frames_body 0 root fs).length) :
    FramesOk n_fds (Draft.push v ⟨root, fs⟩).root (Draft.push v ⟨root, fs⟩).frames := by
  cases fs with
  | nil =>
    refine ⟨allValid_append h.1 ⟨hv, trivial⟩, allReadable_append h.2 ⟨?_, trivial⟩⟩
    rw [zero_add]
    exact hr
  | cons f fs =>
    obtain ⟨hfs, hd, hk, hval, hread⟩ := h
    refine ⟨hfs, hd, hk, allValid_append hval ⟨hv, trivial⟩, allReadable_append hread ⟨?_, trivial⟩⟩
    rw [length_frames_body_cons] at hr
    exact hr

/-- The value that an open container becomes may be sent and can be read. -/
theorem Draft.FramesOk.close {k : ContainerKind} {vs : List Value}
    (h : FramesOk n_fds root (⟨k, vs⟩ :: fs)) (hk : k.Closes vs v) (hholds : k.Holds (types vs))
    (harray : ∀ elem, k = .array elem → (encodes BUS_NATIVE_ENDIAN
      (k.begin (frames_body 0 root fs).length) vs).length ≤ BUS_ARRAY_MAX_SIZE) :
    v.Valid ∧ v.Readable BUS_NATIVE_ENDIAN n_fds fs.length (frames_body 0 root fs).length := by
  obtain ⟨-, hd, hok, hval, hread⟩ := h
  cases hk with
  | array elem vs => exact ⟨⟨hval, hholds⟩, hd, harray elem rfl, hread⟩
  | variant v =>
    obtain ⟨ht, hlen⟩ := hok
    refine ⟨⟨hval.1, ht, ?_⟩, hd, ?_, hread.1⟩
    · unfold SD_BUS_MAXIMUM_SIGNATURE_LENGTH
      omega
    · omega
  | struct vs => exact ⟨hval, hd, hread⟩
  | dict_entry key value =>
    have hvalue := hread.2.1
    have hbegin : ContainerKind.begin (frames_body 0 root fs).length
        (.dict_entry key.type value.type) = alignTo (frames_body 0 root fs).length 8 := rfl
    rw [hbegin, key_encode] at hvalue
    exact ⟨⟨hval.1, hval.2.1⟩, hd, hread.1, hvalue⟩

end drafts

variable {d : Draft} {m : SdBusMessage}

/-- The body is made longer, behind what is there. -/
theorem body_extended_draft {align stop : Nat} (data c : List UInt8) (ha : 0 < align)
    (hs : m.containers.filterMap (·.array_size) = Draft.frames_arrays d.root d.frames)
    (hb : m.body = d.body stop ++ c) (hstop : m.body.length = stop)
    (hle : alignTo stop align + data.length ≤ 0xffffffff) : (body_extended align data m).body =
      d.body (alignTo stop align + data.length) ++ (c ++ (zeroes stop align ++ data)) := by
  have hpad := add_padding (n := stop) ha
  have hlen : (Draft.frames_body 0 d.root d.frames).length ≤ stop := by
    rw [Draft.frames_body_length 0 stop]
    have := congrArg length hb
    rw [length_append] at this
    unfold Draft.body at this
    omega
  have hend : stop + (padding stop align + data.length) ≤ 0xffffffff := by omega
  have hfold := Draft.fold_arrays hlen hend (c ++ (zeroes stop align ++ data))
  unfold body_extended message_extend_containers
  rw [hs, hstop]
  have hbody : m.body ++ replicate (padding stop align) 0 ++ data =
      Draft.frames_body stop d.root d.frames ++ (c ++ (zeroes stop align ++ data)) := by
    rw [hb]
    unfold Draft.body zeroes
    simp only [append_assoc]
  rw [hbody, hfold, ← add_assoc, hpad]
  rfl

/-- The header of the message, without what the calls that write the body
    change. -/
def SdBusMessage.head (m : SdBusMessage) : SdBusMessage :=
  { m with body := [], fds := [], root_container := .root, containers := [], poisoned := false }

/-- The message has been written with these calls, to be sent with the file
    descriptors `F`. -/
structure Written (F : List Int) (es : List MessageEvent) (m : SdBusMessage) (d : Draft) :
    Prop where
  body : m.body = d.body m.body.length
  bound : m.body.length ≤ 0xffffffff
  stacked : Stacked m d []
  fds : m.fds <+: F
  n_fds : 4 * m.fds.length ≤ m.body.length
  ok : Draft.FramesOk F.length d.root d.frames
  events : d.events F = es

/-- The same, but for the limits of the reader, to which the writer does not
    keep. -/
structure Drafted (F : List Int) (es : List MessageEvent) (m : SdBusMessage) (d : Draft) :
    Prop where
  body : m.body = d.body m.body.length
  bound : m.body.length ≤ 0xffffffff
  stacked : Stacked m d []
  fds : m.fds <+: F
  n_fds : 4 * m.fds.length ≤ m.body.length
  events : d.events F = es

variable {F : List Int} {es : List MessageEvent}

theorem Written.drafted (h : Written F es m d) : Drafted F es m d :=
  ⟨h.body, h.bound, h.stacked, h.fds, h.n_fds, h.events⟩

theorem Drafted.written (h : Drafted F es m d) (hok : Draft.FramesOk F.length d.root d.frames) :
    Written F es m d :=
  ⟨h.body, h.bound, h.stacked, h.fds, h.n_fds, hok, h.events⟩

/-- What a call does to what has been written. -/
inductive Draft.Step : WriteCall → Draft → Draft → Prop
  | push {env : AppendEnv} {a : BasicArg} {n_fds : Nat} {d : Draft} :
    (a.value n_fds).type.code = a.type →
    Step (.append_basic env a) d (d.push (.basic (a.value n_fds)))
  | enter {env : AppendEnv} {k : ContainerKind} {d : Draft} :
    Step (.open_container env k.ty.code (sigs k.contents)) d (d.enter k)
  | close {k : ContainerKind} {vs : List Value} {v : Value} {root : List Value} {fs : List Frame} :
    k.Closes vs v → Step .close_container ⟨root, ⟨k, vs⟩ :: fs⟩ (Draft.push v ⟨root, fs⟩)

section frames
variable {m m' m₁ : SdBusMessage} {f : BusMessageContainer → BusMessageContainer} {i align : Nat}
  {data : List UInt8} {env : AppendEnv}

@[simp] theorem update_last_body : (m.update_last f).body = m.body := by
  unfold update_last
  cases m.containers <;> rfl

@[simp] theorem update_last_fds : (m.update_last f).fds = m.fds := by
  unfold update_last
  cases m.containers <;> rfl

@[simp] theorem update_last_head : (m.update_last f).head = m.head := by
  unfold update_last
  cases m.containers <;> rfl

@[simp] theorem set_index_body : (set_index i m).body = m.body := by
  unfold set_index
  split
  · exact update_last_body
  · rfl

@[simp] theorem set_index_fds : (set_index i m).fds = m.fds := by
  unfold set_index
  split
  · exact update_last_fds
  · rfl

@[simp] theorem set_index_head : (set_index i m).head = m.head := by
  unfold set_index
  split
  · exact update_last_head
  · rfl

/-- What does not depend on the signature stays as it is. -/
theorem next_in_signature_frame {c : BusMessageContainer} {same : Bool} {t : List UInt8}
    (h : next_in_signature env c same t m = (.ok ⟨⟩, m₁)) :
    m₁.body = m.body ∧ m₁.fds = m.fds ∧ m₁.head = m.head ∧
      m₁.containers.filterMap (·.array_size) = m.containers.filterMap (·.array_size) := by
  rcases next_in_signature_ok h with ⟨-, -, rfl⟩ | ⟨-, -, rfl⟩
  · exact ⟨rfl, rfl, rfl, rfl⟩
  · refine ⟨update_last_body, update_last_fds, update_last_head, ?_⟩
    unfold update_last
    cases m.containers <;> rfl

variable {a : BasicArg}

/-- A value does not change the message by itself. -/
theorem basic_data_state {r : Nat × List UInt8 × Option Int} (h : basic_data env a m = (.ok r, m₁)) :
    m₁ = m := by
  have hcheck : ∀ {b : Bool} {x : Nat × List UInt8 × Option Int},
      (if b then fail .EINVAL else pure x : Call SdBusMessage _) m = (.ok r, m₁) →
      m₁ = m := by
    intro b x hx
    cases b <;> cases hx
    rfl
  cases a with
  | fixed t n =>
    have hs : bus_type_get_size t.code = some ((bus_type_get_size t.code).getD 1) := by
      cases t <;> rfl
    have ha : bus_type_get_alignment t.code = some (fixed t).align :=
      (fixed t).code_alignment
    unfold basic_data at h
    dsimp only at h
    rw [hs, ha] at h
    cases h
    rfl
  | boolean p =>
    cases h
    rfl
  | string p => exact hcheck h
  | object_path p =>
    cases p with
    | none => cases h
    | some s => exact hcheck h
  | signature p => exact hcheck h
  | unix_fd p =>
    cases p with
    | none => cases h
    | some fd =>
      obtain ⟨c, m₂, hc, hrest⟩ := of_bind_ok h
      obtain ⟨-, rfl⟩ := message_push_fd_ok hc
      cases hrest
      rfl
  | not_basic t => cases h

/-- What `sd_bus_message_append_basic` does if it succeeds. -/
theorem append_basic_ok (h : sd_bus_message_append_basic env a m = (.ok ⟨⟩, m')) :
    ∃ m₁ align data fd, bus_type_is_basic a.type = true ∧
      next_in_signature env m.last_container (m.last_container.current == some a.type) [a.type] m =
        (.ok ⟨⟩, m₁) ∧
      basic_data env a m₁ = (.ok (align, data, fd), m₁) ∧
      alignTo m₁.body.length align + data.length ≤ 0xffffffff ∧
      m' = set_index (m.last_container.index + 1)
        { body_extended align data m₁ with fds := m₁.fds ++ fd.toList } := by
  have h1 := (of_check_bind_ok h).2
  obtain ⟨hb, h2⟩ := of_check_bind_ok h1
  have h3 := (of_check_bind_ok h2).2
  obtain ⟨⟨⟩, m₁, hnext, h4⟩ := of_bind_ok h3
  obtain ⟨⟨align, data, fd⟩, m₂, hdata, h5⟩ := of_bind_ok h4
  obtain ⟨r, m3, hext, h6⟩ := of_bind_ok h5
  obtain ⟨-, rfl, hle⟩ := extend_body_ok hext
  obtain rfl := basic_data_state hdata
  cases h6
  exact ⟨m₂, align, data, fd, hb, hnext, hdata, hle, rfl⟩

/-- The message in which the index is kept in case the container is aborted. -/
def saved_message (m : SdBusMessage) : SdBusMessage :=
  m.update_last fun c => { c with saved_index := c.index }

theorem saved_last : (saved_message m).last_container =
    { m.last_container with saved_index := m.last_container.index } := by
  unfold saved_message update_last last_container
  cases m.containers <;> rfl

/-- What `sd_bus_message_open_container` does if it succeeds. -/
theorem open_container_ok {type : UInt8} {contents : List UInt8}
    (h : sd_bus_message_open_container env type contents m = (.ok ⟨⟩, m')) :
    ∃ m₁ array_size, bus_message_open env (saved_message m).last_container type contents
        (saved_message m) = (.ok array_size, m₁) ∧
      m' = { m₁ with containers :=
        { enclosing := type, signature := contents, index := 0, saved_index := 0,
          before := m.body.length, begin := 0, end_ := 0, array_size := array_size } ::
            m₁.containers } := by
  have h1 := (of_check_bind_ok h).2
  have h2 := (of_check_bind_ok h1).2
  cases hmem : env.containers && env.contents with
  | false =>
    rw [hmem] at h2
    cases h2
  | true =>
    rw [hmem, if_neg (by decide), modify_bind_run] at h2
    obtain ⟨array_size, m₁, hopen, h3⟩ := of_bind_ok h2
    cases h3
    refine ⟨m₁, array_size, ?_, rfl⟩
    rw [saved_last]
    exact hopen

/-- What `sd_bus_message_close_container` does if it succeeds. -/
theorem close_container_ok (h : sd_bus_message_close_container m = (.ok ⟨⟩, m')) :
    ∃ c rest, m.containers = c :: rest ∧
      (c.enclosing = SD_BUS_TYPE_ARRAY ∨ c.current = none) ∧
      m' = { m with containers := rest } := by
  have h1 := (of_check_bind_ok h).2
  cases hc : m.containers with
  | nil =>
    rw [hc] at h1
    cases h1
  | cons c rest =>
    rw [hc] at h1
    have h2 := (of_check_bind_ok h1).2
    obtain ⟨hend, h3⟩ := of_check_bind_ok h2
    cases h3
    refine ⟨c, rest, rfl, ?_, rfl⟩
    rcases Bool.or_eq_true _ _ ▸ hend with ha | hn
    · exact .inl (beq_iff_eq.mp ha)
    · exact .inr (by simpa using hn)

/-! ### The functions that open containers -/

section opening
variable {contents : List UInt8} {array_size : Option Nat}

variable {c : BusMessageContainer}

theorem open_array_ok (h : bus_message_open_array env c contents m = (.ok array_size, m')) :
    ∃ (elem : Ty) (m₁ : SdBusMessage), elem.sig = contents ∧
      next_in_signature env c (signature_has c SD_BUS_TYPE_ARRAY contents [])
        (Ty.array elem).sig m = (.ok ⟨⟩, m₁) ∧ alignTo m₁.body.length 4 + 4 ≤ 0xffffffff ∧
      alignTo (body_extended 4 (in_host_order 4 0) m₁).body.length elem.align ≤ 0xffffffff ∧
      array_size = some (alignTo m₁.body.length 4) ∧
      m' = set_index (c.index + (Ty.array elem).sig.length)
        (body_extended elem.align [] (body_extended 4 (in_host_order 4 0) m₁)) := by
  obtain ⟨hs, h1⟩ := of_check_bind_ok h
  obtain ⟨elem, -, rfl⟩ := type_of_single hs
  obtain ⟨⟨⟩, m₁, hnext, h2⟩ := of_bind_ok h1
  rw [elem.sig_alignment] at h2
  obtain ⟨a, m₂, hext, h3⟩ := of_bind_ok h2
  obtain ⟨rfl, rfl, hle⟩ := extend_body_ok hext
  obtain ⟨a', m3, hext', h4⟩ := of_bind_ok h3
  obtain ⟨-, rfl, hle'⟩ := extend_body_ok hext'
  cases h4
  have hlen : c.index + 1 + elem.sig.length = c.index + (Ty.array elem).sig.length := by
    rw [Ty.sig, length_cons]
    omega
  rw [hlen]
  exact ⟨elem, m₁, rfl, hnext, hle, by simpa using hle', rfl, rfl⟩

theorem open_variant_ok (h : bus_message_open_variant env c contents m = (.ok array_size, m')) :
    ∃ (t : Ty) (m₁ : SdBusMessage), t.sig = contents ∧ t.Ok false 0 0 ∧
      next_in_signature env c (c.current == some SD_BUS_TYPE_VARIANT) variant.sig m = (.ok ⟨⟩, m₁) ∧
      m₁.body.length + (t.sig.length + 2) ≤ 0xffffffff ∧ array_size = none ∧
      m' = set_index (c.index + variant.sig.length)
        (body_extended 1 (in_host_order 1 t.sig.length ++ (t.sig ++ [0])) m₁) := by
  obtain ⟨hs, h1⟩ := of_check_bind_ok h
  obtain ⟨t, ht, rfl⟩ := type_of_single hs
  have h2 := (of_check_bind_ok h1).2
  obtain ⟨⟨⟩, m₁, hnext, h3⟩ := of_bind_ok h2
  obtain ⟨a, m₂, hext, h4⟩ := of_bind_ok h3
  obtain ⟨-, rfl, hle⟩ := extend_body_ok hext
  cases h4
  refine ⟨t, m₁, rfl, ht, hnext, ?_, rfl, ?_⟩
  · rw [alignTo_one] at hle
    simp only [in_host_order, length_append, length_ofNat, length_cons,
      length_nil] at hle
    omega
  · rfl

theorem open_struct_ok (h : bus_message_open_struct env c contents m = (.ok array_size, m')) :
    ∃ (members : List Ty) (m₁ : SdBusMessage), sigs members = contents ∧ next_in_signature env c
        (signature_has c SD_BUS_TYPE_STRUCT_BEGIN contents [SD_BUS_TYPE_STRUCT_END])
        (struct members).sig m = (.ok ⟨⟩, m₁) ∧
      alignTo m₁.body.length 8 ≤ 0xffffffff ∧ array_size = none ∧
      m' = set_index (c.index + (struct members).sig.length) (body_extended 8 [] m₁) := by
  obtain ⟨hs, h1⟩ := of_check_bind_ok h
  obtain ⟨members, -, rfl⟩ := types_of_valid hs
  obtain ⟨⟨⟩, m₁, hnext, h2⟩ := of_bind_ok h1
  obtain ⟨a, m₂, hext, h3⟩ := of_bind_ok h2
  obtain ⟨-, rfl, hle⟩ := extend_body_ok hext
  cases h3
  refine ⟨members, m₁, rfl, hnext, by simpa using hle, rfl, ?_⟩
  have hlen : c.index + 1 + (sigs members).length + 1 =
      c.index + (struct members).sig.length := by
    rw [sig, length_append, length_cons, length_singleton]
    omega
  rw [hlen]

theorem open_dict_entry_ok (h : bus_message_open_dict_entry env c contents m = (.ok array_size, m')) :
    ∃ (key : BasicType) (value : Ty), key.code :: value.sig = contents ∧
      c.enclosing = SD_BUS_TYPE_ARRAY ∧ (dict_entry key value).sig <+: c.signature.drop c.index ∧
      alignTo m.body.length 8 ≤ 0xffffffff ∧ array_size = none ∧ m' = body_extended 8 [] m := by
  obtain ⟨hs, h1⟩ := of_check_bind_ok h
  obtain ⟨key, value, -, rfl⟩ := types_of_pair hs
  obtain ⟨ha, h2⟩ := of_check_bind_ok h1
  obtain ⟨hnext, h3⟩ := of_check_bind_ok h2
  obtain ⟨a, m₂, hext, h4⟩ := of_bind_ok h3
  obtain ⟨-, rfl, hle⟩ := extend_body_ok hext
  cases h4
  refine ⟨key, value, rfl, beq_iff_eq.mp ha, ?_, by simpa using hle, rfl, rfl⟩
  rw [Bool.and_eq_true] at hnext
  have hhas := hnext.2
  unfold signature_has at hhas
  rw [List.isPrefixOf_iff_prefix] at hhas
  exact hhas

end opening

end frames

section steps
variable {F : List Int} {es : List MessageEvent} {m m' : SdBusMessage} {d : Draft}
  {env : AppendEnv}

/-- The body has the length it is for. -/
theorem Drafted.length (h : Drafted F es m d) (stop : Nat) :
    (d.body stop).length = m.body.length := by
  rw [Draft.body_length stop m.body.length, ← h.body]

theorem Drafted.arrays (h : Drafted F es m d) :
    m.containers.filterMap (·.array_size) = Draft.frames_arrays d.root d.frames :=
  Stack.arrays h.stacked

theorem Drafted.depth (h : Drafted F es m d) : m.containers.length = d.frames.length :=
  Stack.length h.stacked

theorem Written.depth (h : Written F es m d) : m.containers.length = d.frames.length :=
  h.drafted.depth

variable {c : BusMessageContainer}

theorem current_prefix {x : UInt8} (h : c.current = some x) : [x] <+: c.signature.drop c.index := by
  unfold BusMessageContainer.current at h
  rw [← head?_drop] at h
  obtain ⟨r, hr⟩ := head?_eq_some_iff.mp h
  exact ⟨r, hr.symm⟩

/-- A basic value is put behind what has been written. -/
theorem Drafted.step_append {a : BasicArg} (h : Drafted F es m d) (hp : a.Pointed)
    (hrun : sd_bus_message_append_basic env a m = (.ok ⟨⟩, m')) (hF : m'.fds <+: F) :
    ∃ d', Drafted F (es ++ [.basic a.type (a.read env)]) m' d' ∧
      Draft.Step (.append_basic env a) d d' ∧
      ((WriteCall.append_basic env a).Within m → Draft.FramesOk F.length d.root d.frames →
        Draft.FramesOk F.length d'.root d'.frames) := by
  obtain ⟨m₁, align, data, fd, hb, hnext, hdata, hle, rfl⟩ := append_basic_ok hrun
  obtain ⟨hbody, hfds, -, harrays⟩ := next_in_signature_frame hnext
  have hn := h.n_fds
  have hbound := h.bound
  rw [set_index_fds] at hF
  have hF' : m₁.fds ++ fd.toList <+: F := hF
  rw [hbody] at hle
  obtain ⟨-, htype, halign, hdata, hvalid, hfd, hread⟩ :=
    basic_data_ok hp (by rw [hfds]; omega) hdata (by omega)
  obtain ⟨hread, hhas⟩ := hread F hF'
  have hshort : (WriteCall.append_basic env a).Within m →
      (a.value m₁.fds.length).short = true := by
    intro hw
    cases a with
    | signature p =>
      have hlt : (p.getD []).length < 0xff := hw
      simpa [BasicArg.value, BasicValue.short] using Nat.ne_of_lt hlt
    | fixed t n => rfl
    | boolean p => rfl
    | string p => rfl
    | object_path p => rfl
    | unix_fd p => rfl
    | not_basic t => rfl
  have hstep : ∀ d : Draft, Draft.Step (.append_basic env a) d
      (d.push (.basic (a.value m₁.fds.length))) := fun _ => .push htype
  generalize a.value m₁.fds.length = v at htype halign hdata hvalid hread hhas hshort hstep
  have hpos : 0 < align := halign ▸ (basic v.type).align_pos
  have hsig : (basic v.type).sig = [a.type] := by rw [sig, htype]
  -- the body
  have hext := body_extended_draft (m := m₁) (d := d) data [] hpos
    (harrays.trans h.arrays) (by rw [append_nil, hbody]; exact h.body) (by rw [hbody]) hle
  have hencode : (basic v).encode BUS_NATIVE_ENDIAN m.body.length =
      zeroes m.body.length align ++ data := by
    rw [encode, halign, hdata]
  have hbody' : (body_extended align data m₁).body = (d.push (.basic v)).body
      (alignTo m.body.length align + data.length) := by
    rw [hext, Draft.body_push, h.length, hencode, nil_append]
  have hlen : (body_extended align data m₁).body.length =
      alignTo m.body.length align + data.length := by
    rw [hbody', Draft.body_push, length_append, h.length, hencode, length_append,
      length_zeroes, ← add_assoc, add_padding hpos]
  have hgrow := le_alignTo (n := m.body.length) hpos
  -- the containers
  have hstacked : Stacked (set_index (m.last_container.index + (basic v.type).sig.length)
      { body_extended align data m₁ with fds := m₁.fds ++ fd.toList }) d [.basic v.type] := by
    rw [← hsig] at hnext
    refine h.stacked.next hnext ?_ ?_ rfl rfl
    · intro hs
      rw [hsig]
      exact current_prefix (beq_iff_eq.mp hs)
    · intro key value he
      cases he
  refine ⟨d.push (.basic v), ⟨?_, ?_, hstacked.push, ?_, ?_, ?_⟩, hstep d,
    fun hw hok => hok.push hvalid ⟨hshort hw, hhas⟩⟩
  · rw [set_index_body]
    rw [hlen, ← hbody']
  · rw [set_index_body]
    rw [hlen]
    exact hle
  · rw [set_index_fds]
    exact hF'
  · rw [set_index_body, set_index_fds]
    show 4 * (m₁.fds ++ fd.toList).length ≤ (body_extended align data m₁).body.length
    rw [length_append, hfds]
    omega
  · rw [Draft.events_push, h.events, Value.events, htype, hread]

variable {k : ContainerKind}

/-- A container is open behind what has been written. -/
theorem Drafted.enter {m₂ : SdBusMessage} (before : Nat) (h : Drafted F es m d)
    (hs : Stacked m₂ d [k.ty])
    (hb : m₂.body = d.body m₂.body.length ++ k.head m.body.length m₂.body.length)
    (hle : m₂.body.length ≤ 0xffffffff) (hf : m₂.fds = m.fds) :
    Drafted F (es ++ [.enter k.ty.code (sigs k.contents)])
      { m₂ with containers :=
        { enclosing := k.ty.code, signature := sigs k.contents, index := 0, saved_index := 0,
          before := before, begin := 0, end_ := 0,
          array_size := k.array_size m.body.length } :: m₂.containers } (d.enter k) := by
  have hgrow : m.body.length ≤ m₂.body.length := by
    have hlen := congrArg List.length hb
    rw [List.length_append, h.length] at hlen
    omega
  have hn := h.n_fds
  constructor
  · show m₂.body = (d.enter k).body m₂.body.length
    rw [Draft.body_enter, h.length]
    exact hb
  · exact hle
  · apply Stacked.enter hs
    constructor
    · rfl
    · rfl
    · show 0 = if k.ty.code = SD_BUS_TYPE_ARRAY then 0 else (sigs []).length
      rw [sigs, length_nil, ite_self]
    · rw [h.length]
    · cases k with
      | array elem =>
        intro t ht
        cases ht
      | variant t => exact nil_prefix
      | struct members => exact nil_prefix
      | dict_entry key value => exact nil_prefix
  · show m₂.fds <+: F
    rw [hf]
    exact h.fds
  · show 4 * m₂.fds.length ≤ m₂.body.length
    rw [hf]
    omega
  · rw [Draft.events_enter, h.events]

/-- It is not too deep, and its contents are not too long. -/
theorem Drafted.enter_ok (h : Drafted F es m d) (hd : m.containers.length < BUS_CONTAINER_DEPTH)
    (hk : k.Ok) (hok : Draft.FramesOk F.length d.root d.frames) :
    Draft.FramesOk F.length (d.enter k).root (d.enter k).frames := by
  refine ⟨hok, ?_, hk, trivial, trivial⟩
  rw [← h.depth]
  exact hd

theorem Drafted.saved (h : Drafted F es m d) : Drafted F es (saved_message m) d := by
  constructor
  · unfold saved_message
    rw [update_last_body]
    exact h.body
  · unfold saved_message
    rw [update_last_body]
    exact h.bound
  · exact h.stacked.saved
  · unfold saved_message
    rw [update_last_fds]
    exact h.fds
  · unfold saved_message
    rw [update_last_fds, update_last_body]
    exact h.n_fds
  · exact h.events

theorem saved_depth : (saved_message m).containers.length = m.containers.length := by
  unfold saved_message update_last
  cases m.containers <;> rfl

variable {contents : List UInt8}

theorem signature_has_prefix {first : UInt8} {last : List UInt8}
    (h : signature_has c first contents last = true) :
    first :: contents ++ last <+: c.signature.drop c.index := by
  unfold signature_has at h
  rwa [List.isPrefixOf_iff_prefix] at h

variable {array_size : Option Nat} {before : Nat}

/-- An array is open: its length, which is zero, and the padding before the
    first element. -/
theorem Drafted.open_array (h : Drafted F es m d)
    (hopen : bus_message_open_array env m.last_container contents m = (.ok array_size, m')) :
    ∃ d', Drafted F (es ++ [.enter SD_BUS_TYPE_ARRAY contents])
      { m' with containers :=
        { enclosing := SD_BUS_TYPE_ARRAY, signature := contents, index := 0, saved_index := 0,
          before := before, begin := 0, end_ := 0, array_size := array_size } ::
            m'.containers } d' ∧
      Draft.Step (.open_container env SD_BUS_TYPE_ARRAY contents) d d' ∧
      (m.containers.length < BUS_CONTAINER_DEPTH → Draft.FramesOk F.length d.root d.frames →
        Draft.FramesOk F.length d'.root d'.frames) := by
  obtain ⟨elem, m₁, rfl, hnext, hle, hle', rfl, rfl⟩ := open_array_ok hopen
  obtain ⟨hbody, hfds, -, harrays⟩ := next_in_signature_frame hnext
  rw [hbody] at hle ⊢
  have hpos := elem.align_pos
  have hword : (in_host_order 4 0).length = 4 := length_ofNat _ _ _
  -- the two steps that make the body longer
  have hext := body_extended_draft (m := m₁) (d := d) (in_host_order 4 0) [] (by decide)
    (harrays.trans h.arrays) (by rw [append_nil, hbody]; exact h.body)
    (by rw [hbody]) hle
  rw [hword, nil_append] at hext
  have hlen : (body_extended 4 (in_host_order 4 0) m₁).body.length =
      alignTo m.body.length 4 + 4 := by
    rw [hext, length_append, h.length, length_append, length_zeroes, hword,
      ← add_assoc, add_padding (by decide)]
  rw [hlen] at hle'
  have hext' := body_extended_draft (m := body_extended 4 (in_host_order 4 0) m₁) (d := d) []
    _ hpos (harrays.trans h.arrays) hext hlen hle'
  rw [append_nil] at hext'
  have hhead : ContainerKind.head m.body.length
      (alignTo (alignTo m.body.length 4 + 4) elem.align) (.array elem) =
      zeroes m.body.length 4 ++ in_host_order 4 0 ++ zeroes (alignTo m.body.length 4 + 4)
        elem.align := by
    unfold ContainerKind.head
    dsimp only
    rw [Nat.sub_self]
  have hlen' : (body_extended elem.align []
      (body_extended 4 (in_host_order 4 0) m₁)).body.length =
      alignTo (alignTo m.body.length 4 + 4) elem.align := by
    rw [hext', ← hhead, length_append, h.length, ContainerKind.length_head]
    rfl
  have hstacked : Stacked (set_index (m.last_container.index + (Ty.array elem).sig.length)
      (body_extended elem.align [] (body_extended 4 (in_host_order 4 0) m₁))) d [.array elem] := by
    refine h.stacked.next hnext ?_ ?_ rfl rfl
    · intro hs
      have hp := signature_has_prefix hs
      rwa [append_nil] at hp
    · intro key value he
      cases he
  have hsigs : sigs (ContainerKind.array elem).contents = elem.sig := append_nil _
  have hstep : Draft.Step (.open_container env SD_BUS_TYPE_ARRAY
      (sigs (ContainerKind.array elem).contents)) d (d.enter (.array elem)) :=
    Draft.Step.enter (k := .array elem)
  refine ⟨d.enter (.array elem), ?_⟩
  have hentered := h.enter (k := .array elem) before hstacked
    (by rw [set_index_body, hlen', hhead]; exact hext') (by rw [set_index_body, hlen']; exact hle')
    (by rw [set_index_fds]; exact hfds)
  rw [hsigs] at hentered hstep
  exact ⟨hentered, hstep, fun hd hok => h.enter_ok hd trivial hok⟩

/-- A variant is open: the signature of its value. -/
theorem Drafted.open_variant (h : Drafted F es m d)
    (hopen : bus_message_open_variant env m.last_container contents m = (.ok array_size, m')) :
    ∃ d', Drafted F (es ++ [.enter SD_BUS_TYPE_VARIANT contents])
      { m' with containers :=
        { enclosing := SD_BUS_TYPE_VARIANT, signature := contents, index := 0, saved_index := 0,
          before := before, begin := 0, end_ := 0, array_size := array_size } ::
            m'.containers } d' ∧
      Draft.Step (.open_container env SD_BUS_TYPE_VARIANT contents) d d' ∧
      (m.containers.length < BUS_CONTAINER_DEPTH → contents.length < 0xff →
        Draft.FramesOk F.length d.root d.frames →
        Draft.FramesOk F.length d'.root d'.frames) := by
  obtain ⟨t, m₁, rfl, hok, hnext, hle, rfl, rfl⟩ := open_variant_ok hopen
  obtain ⟨hbody, hfds, -, harrays⟩ := next_in_signature_frame hnext
  rw [hbody] at hle
  have hdata : (in_host_order 1 t.sig.length ++ (t.sig ++ [0])).length = t.sig.length + 2 := by
    simp [in_host_order]
    omega
  have hext := body_extended_draft (m := m₁) (d := d)
    (in_host_order 1 t.sig.length ++ (t.sig ++ [0])) [] (by decide : 0 < 1)
    (harrays.trans h.arrays)
    (by rw [append_nil, hbody]; exact h.body) (by rw [hbody])
    (by rw [alignTo_one, hdata]; exact hle)
  rw [alignTo_one, hdata, zeroes_one, nil_append, nil_append] at hext
  have hlen : (body_extended 1 (in_host_order 1 t.sig.length ++ (t.sig ++ [0])) m₁).body.length =
      m.body.length + (t.sig.length + 2) := by
    rw [hext, length_append, h.length, hdata]
  have hstacked : Stacked (set_index (m.last_container.index + variant.sig.length)
      (body_extended 1 (in_host_order 1 t.sig.length ++ (t.sig ++ [0])) m₁)) d [.variant] := by
    refine h.stacked.next hnext ?_ ?_ rfl rfl
    · intro hs
      exact current_prefix (beq_iff_eq.mp hs)
    · intro key value he
      cases he
  have hsigs : sigs (ContainerKind.variant t).contents = t.sig := append_nil _
  have hstep : Draft.Step (.open_container env SD_BUS_TYPE_VARIANT
      (sigs (ContainerKind.variant t).contents)) d (d.enter (.variant t)) :=
    Draft.Step.enter (k := .variant t)
  refine ⟨d.enter (.variant t), ?_⟩
  have hentered := h.enter (k := .variant t) before hstacked
    (by rw [set_index_body, hlen]; exact hext) (by rw [set_index_body, hlen]; exact hle)
    (by rw [set_index_fds]; exact hfds)
  rw [hsigs] at hentered hstep
  exact ⟨hentered, hstep, fun hd hshort hframes => h.enter_ok hd ⟨hok, hshort⟩ hframes⟩

/-- A struct is open. -/
theorem Drafted.open_struct (h : Drafted F es m d)
    (hopen : bus_message_open_struct env m.last_container contents m = (.ok array_size, m')) :
    ∃ d', Drafted F (es ++ [.enter SD_BUS_TYPE_STRUCT contents])
      { m' with containers :=
        { enclosing := SD_BUS_TYPE_STRUCT, signature := contents, index := 0, saved_index := 0,
          before := before, begin := 0, end_ := 0, array_size := array_size } ::
            m'.containers } d' ∧
      Draft.Step (.open_container env SD_BUS_TYPE_STRUCT contents) d d' ∧
      (m.containers.length < BUS_CONTAINER_DEPTH → Draft.FramesOk F.length d.root d.frames →
        Draft.FramesOk F.length d'.root d'.frames) := by
  obtain ⟨members, m₁, rfl, hnext, hle, rfl, rfl⟩ := open_struct_ok hopen
  obtain ⟨hbody, hfds, -, harrays⟩ := next_in_signature_frame hnext
  rw [hbody] at hle
  have hext := body_extended_draft (m := m₁) (d := d) [] [] (by decide : 0 < 8)
    (harrays.trans h.arrays) (by rw [append_nil, hbody]; exact h.body) (by rw [hbody]) hle
  rw [append_nil, nil_append] at hext
  have hlen : (body_extended 8 [] m₁).body.length = alignTo m.body.length 8 := by
    rw [hext, length_append, h.length, length_zeroes, add_padding (by decide)]
  have hstacked : Stacked (set_index (m.last_container.index + (struct members).sig.length)
      (body_extended 8 [] m₁)) d [.struct members] := by
    refine h.stacked.next hnext ?_ ?_ rfl rfl
    · intro hs
      exact signature_has_prefix hs
    · intro key value he
      cases he
  refine ⟨d.enter (.struct members), ?_, Draft.Step.enter (k := .struct members),
    fun hd hok => h.enter_ok hd trivial hok⟩
  exact h.enter (k := .struct members) before hstacked
    (by rw [set_index_body, hlen]; exact hext) (by rw [set_index_body, hlen]; exact hle)
    (by rw [set_index_fds]; exact hfds)

/-- A dictionary entry is open, in an array. -/
theorem Drafted.open_dict_entry (h : Drafted F es m d)
    (hopen : bus_message_open_dict_entry env m.last_container contents m = (.ok array_size, m')) :
    ∃ d', Drafted F (es ++ [.enter SD_BUS_TYPE_DICT_ENTRY contents])
      { m' with containers :=
        { enclosing := SD_BUS_TYPE_DICT_ENTRY, signature := contents, index := 0,
          saved_index := 0, before := before, begin := 0, end_ := 0,
          array_size := array_size } :: m'.containers } d' ∧
      Draft.Step (.open_container env SD_BUS_TYPE_DICT_ENTRY contents) d d' ∧
      (m.containers.length < BUS_CONTAINER_DEPTH → Draft.FramesOk F.length d.root d.frames →
        Draft.FramesOk F.length d'.root d'.frames) := by
  obtain ⟨key, value, rfl, ha, hnext, hle, rfl, rfl⟩ := open_dict_entry_ok hopen
  have hext := body_extended_draft (m := m) (d := d) [] [] (by decide : 0 < 8) h.arrays
    (by rw [append_nil]; exact h.body) rfl hle
  rw [append_nil, nil_append] at hext
  have hlen : (body_extended 8 [] m).body.length = alignTo m.body.length 8 := by
    rw [hext, length_append, h.length, length_zeroes, add_padding (by decide)]
  have hstacked : Stacked (body_extended 8 [] m) d [.dict_entry key value] :=
    h.stacked.next_array ha hnext
  have hsigs : sigs (ContainerKind.dict_entry key value).contents = key.code :: value.sig := by
    simp [ContainerKind.contents, sigs, sig]
  have hstep : Draft.Step (.open_container env SD_BUS_TYPE_DICT_ENTRY
      (sigs (ContainerKind.dict_entry key value).contents)) d
      (d.enter (.dict_entry key value)) := Draft.Step.enter (k := .dict_entry key value)
  refine ⟨d.enter (.dict_entry key value), ?_⟩
  have hentered := h.enter (k := .dict_entry key value) before hstacked
    (by rw [hlen]; exact hext) (by rw [hlen]; exact hle) rfl
  rw [hsigs] at hentered hstep
  exact ⟨hentered, hstep, fun hd hok => h.enter_ok hd trivial hok⟩

/-- The file descriptors, and what the header says, are not touched. -/
theorem bus_message_open_frame {type : UInt8}
    (h : bus_message_open env c type contents m = (.ok array_size, m')) :
    m'.fds = m.fds ∧ m'.head = m.head := by
  unfold bus_message_open at h
  by_cases ha : type = SD_BUS_TYPE_ARRAY
  · rw [if_pos ha] at h
    obtain ⟨elem, m₁, -, hnext, -, -, -, rfl⟩ := open_array_ok h
    obtain ⟨-, hf, hh, -⟩ := next_in_signature_frame hnext
    rw [set_index_fds, set_index_head]
    exact ⟨hf, hh⟩
  rw [if_neg ha] at h
  by_cases hv : type = SD_BUS_TYPE_VARIANT
  · rw [if_pos hv] at h
    obtain ⟨t, m₁, -, -, hnext, -, -, rfl⟩ := open_variant_ok h
    obtain ⟨-, hf, hh, -⟩ := next_in_signature_frame hnext
    rw [set_index_fds, set_index_head]
    exact ⟨hf, hh⟩
  rw [if_neg hv] at h
  by_cases hs : type = SD_BUS_TYPE_STRUCT
  · rw [if_pos hs] at h
    obtain ⟨members, m₁, -, hnext, -, -, rfl⟩ := open_struct_ok h
    obtain ⟨-, hf, hh, -⟩ := next_in_signature_frame hnext
    rw [set_index_fds, set_index_head]
    exact ⟨hf, hh⟩
  rw [if_neg hs] at h
  by_cases hd : type = SD_BUS_TYPE_DICT_ENTRY
  · rw [if_pos hd] at h
    obtain ⟨key, value, -, -, -, -, -, rfl⟩ := open_dict_entry_ok h
    exact ⟨rfl, rfl⟩
  · rw [if_neg hd] at h
    cases h

theorem Drafted.step_open {type : UInt8} (h : Drafted F es m d)
    (hrun : sd_bus_message_open_container env type contents m = (.ok ⟨⟩, m')) :
    ∃ d', Drafted F (es ++ [.enter type contents]) m' d' ∧
      Draft.Step (.open_container env type contents) d d' ∧
      ((WriteCall.open_container env type contents).Within m →
        Draft.FramesOk F.length d.root d.frames → Draft.FramesOk F.length d'.root d'.frames) := by
  obtain ⟨m₁, array_size, hopen, rfl⟩ := open_container_ok hrun
  have hs := h.saved
  unfold bus_message_open at hopen
  by_cases ha : type = SD_BUS_TYPE_ARRAY
  · rw [if_pos ha] at hopen
    rw [ha]
    obtain ⟨d', hd', hstep, hok⟩ := hs.open_array hopen
    exact ⟨d', hd', hstep, fun hw => hok (saved_depth.trans_lt hw.1)⟩
  rw [if_neg ha] at hopen
  by_cases hv : type = SD_BUS_TYPE_VARIANT
  · rw [if_pos hv] at hopen
    rw [hv]
    obtain ⟨d', hd', hstep, hok⟩ := hs.open_variant hopen
    exact ⟨d', hd', hstep, fun hw => hok (saved_depth.trans_lt hw.1) (hw.2 rfl)⟩
  rw [if_neg hv] at hopen
  by_cases hst : type = SD_BUS_TYPE_STRUCT
  · rw [if_pos hst] at hopen
    rw [hst]
    obtain ⟨d', hd', hstep, hok⟩ := hs.open_struct hopen
    exact ⟨d', hd', hstep, fun hw => hok (saved_depth.trans_lt hw.1)⟩
  rw [if_neg hst] at hopen
  by_cases hde : type = SD_BUS_TYPE_DICT_ENTRY
  · rw [if_pos hde] at hopen
    rw [hde]
    obtain ⟨d', hd', hstep, hok⟩ := hs.open_dict_entry hopen
    exact ⟨d', hd', hstep, fun hw => hok (saved_depth.trans_lt hw.1)⟩
  · rw [if_neg hde] at hopen
    cases hopen

/-- The length of an open array is that of the values in it. -/
theorem Drafted.array_word {elem : Ty} {vs root : List Value} {fs : List Frame}
    (h : Drafted F es m ⟨root, ⟨.array elem, vs⟩ :: fs⟩) :
    ∃ a, m.last_container.array_size = some a ∧
      toNat BUS_NATIVE_ENDIAN (slice m.body a 4) = (encodes BUS_NATIVE_ENDIAN
        (ContainerKind.begin (Draft.frames_body 0 root fs).length (.array elem)) vs).length := by
  have hstacked := h.stacked
  unfold Stacked at hstacked
  cases hc : m.containers with
  | nil =>
    rw [hc] at hstacked
    exact hstacked.elim
  | cons c rest =>
    rw [hc] at hstacked
    have hsize : m.last_container.array_size =
        some (alignTo (Draft.frames_body 0 root fs).length 4) := by
      unfold last_container
      rw [hc, headD_cons, hstacked.1.array_size]
      rfl
    refine ⟨_, hsize, ?_⟩
    have hbody : m.body = Draft.frames_body m.body.length root (⟨.array elem, vs⟩ :: fs) := h.body
    have hstop : m.body.length =
        (Draft.frames_body m.body.length root (⟨.array elem, vs⟩ :: fs)).length := by
      rw [← hbody]
    have hlen := Draft.frames_body_length m.body.length 0 root fs
    rw [Draft.length_frames_body_cons] at hstop
    dsimp only at hbody hstop
    have hbound := h.bound
    have hslice : slice m.body (alignTo (Draft.frames_body 0 root fs).length 4) 4 =
        in_host_order 4 (m.body.length - ContainerKind.begin
          (Draft.frames_body m.body.length root fs).length (.array elem)) := by
      conv_lhs => rw [hbody, ← hlen]
      exact Draft.array_word ..
    rw [hslice, hlen]
    unfold in_host_order
    rw [toNat_ofNat _ (by omega)]
    rw [hlen] at hstop
    omega

/-- The last open container is a value. -/
theorem Drafted.step_close (h : Drafted F es m d)
    (hrun : sd_bus_message_close_container m = (.ok ⟨⟩, m')) :
    ∃ d', Drafted F (es ++ [.exit]) m' d' ∧ Draft.Step .close_container d d' ∧
      (WriteCall.close_container.Within m → Draft.FramesOk F.length d.root d.frames →
        Draft.FramesOk F.length d'.root d'.frames) := by
  obtain ⟨c, rest, hc, hend, rfl⟩ := close_container_ok hrun
  have hstacked := h.stacked
  obtain ⟨root, fs⟩ := d
  unfold Stacked at hstacked
  rw [hc] at hstacked
  cases fs with
  | nil => exact hstacked.elim
  | cons f fs =>
    obtain ⟨hopen, hrest⟩ := hstacked
    obtain ⟨k, vs⟩ := f
    have hholds := hopen.holds
    rw [append_nil] at hholds
    have hfull : (∀ elem, k ≠ .array elem) → types vs = k.contents := by
      intro hne
      have hcode : k.ty.code ≠ SD_BUS_TYPE_ARRAY := by
        intro he
        obtain ⟨elem, he⟩ := ContainerKind.array_of_code he
        exact hne elem he
      have hcur : c.current = none := hend.resolve_left (by rw [hopen.enclosing]; exact hcode)
      obtain ⟨r, hr⟩ := hholds.prefix hcode
      have hindex := hopen.index
      rw [if_neg (by rw [hopen.enclosing]; exact hcode), append_nil] at hindex
      unfold BusMessageContainer.current at hcur
      rw [hopen.signature, getElem?_eq_none_iff] at hcur
      rw [← hr, sigs_append, length_append] at hcur
      have hnil : r = [] := by
        cases r with
        | nil => rfl
        | cons t r =>
          have := length_pos_iff.mpr t.sig_ne_nil
          rw [sigs, length_append] at hcur
          omega
      rw [hnil, append_nil] at hr
      exact hr
    obtain ⟨v, hclose⟩ := ContainerKind.exists_closes hfull
    have hbody : m.body = Draft.frames_body m.body.length root (⟨k, vs⟩ :: fs) := h.body
    have hstop : m.body.length =
        (Draft.frames_body m.body.length root (⟨k, vs⟩ :: fs)).length := by
      rw [← hbody]
    have harray : WriteCall.close_container.Within m → ∀ elem, k = .array elem →
        (encodes BUS_NATIVE_ENDIAN
          (k.begin (Draft.frames_body 0 root fs).length) vs).length ≤ BUS_ARRAY_MAX_SIZE := by
      intro hw elem he
      subst he
      obtain ⟨a, hsize, hword⟩ := h.array_word
      rw [← hword]
      exact hw a hsize
    have hok : WriteCall.close_container.Within m → Draft.FramesOk F.length root (⟨k, vs⟩ :: fs) →
        Draft.FramesOk F.length (Draft.push v ⟨root, fs⟩).root (Draft.push v ⟨root, fs⟩).frames := by
      intro hw hok
      obtain ⟨hv, hr⟩ := hok.close hclose hholds (harray hw)
      exact hok.1.push hv hr
    refine ⟨Draft.push v ⟨root, fs⟩, ⟨?_, h.bound, ?_, h.fds, h.n_fds, ?_⟩, .close hclose, hok⟩
    · show m.body = (Draft.push v ⟨root, fs⟩).body m.body.length
      rw [← Draft.body_close hclose hstop]
      exact hbody
    · have hpending : Stacked { m with containers := rest } ⟨root, fs⟩ [k.ty] := hrest
      rw [← hclose.type] at hpending
      exact hpending.push
    · rw [Draft.events_close hclose, ← h.events]
      rfl

/-- One step of the writer; it keeps to the limits of the reader where the call
    does. -/
theorem Drafted.step {c : WriteCall} (h : Drafted F es m d) (hp : c.Pointed)
    (hrun : c.run m = (.ok ⟨⟩, m')) (hF : m'.fds <+: F) :
    ∃ d', Drafted F (es ++ [c.event]) m' d' ∧ Draft.Step c d d' ∧
      (c.Within m → Draft.FramesOk F.length d.root d.frames →
        Draft.FramesOk F.length d'.root d'.frames) := by
  cases c with
  | append_basic env a => exact h.step_append hp hrun hF
  | open_container env type contents => exact h.step_open hrun
  | close_container => exact h.step_close hrun

theorem Written.step {c : WriteCall} (h : Written F es m d) (hp : c.Pointed) (hw : c.Within m)
    (hrun : c.run m = (.ok ⟨⟩, m')) (hF : m'.fds <+: F) :
    ∃ d', Written F (es ++ [c.event]) m' d' ∧ Draft.Step c d d' := by
  obtain ⟨d', hd', hstep, hok⟩ := h.drafted.step hp hrun hF
  exact ⟨d', hd'.written (hok hw h.ok), hstep⟩

end steps

/-! ## Section 7: Runs of the writer -/

variable {m' : SdBusMessage}

/-- A call appends file descriptors at most, and leaves the header alone. -/
theorem WriteCall.run_frame {c : WriteCall} (h : c.run m = (.ok ⟨⟩, m')) :
    m.fds <+: m'.fds ∧ m'.head = m.head := by
  cases c with
  | append_basic env a =>
    obtain ⟨m₁, align, data, fd, -, hnext, -, -, rfl⟩ := append_basic_ok h
    obtain ⟨-, hfds, hhead, -⟩ := next_in_signature_frame hnext
    rw [set_index_fds, set_index_head, ← hfds]
    exact ⟨prefix_append _ _, hhead⟩
  | open_container env type contents =>
    obtain ⟨m₁, array_size, hopen, rfl⟩ := open_container_ok h
    obtain ⟨hfds, hhead⟩ := bus_message_open_frame hopen
    unfold saved_message at hfds hhead
    rw [update_last_fds] at hfds
    rw [update_last_head] at hhead
    constructor
    · exact hfds ▸ prefix_refl m.fds
    · exact hhead
  | close_container =>
    obtain ⟨c, rest, -, -, rfl⟩ := close_container_ok h
    exact ⟨prefix_refl _, rfl⟩

theorem write_all_frame {cs : List WriteCall} (h : write_all cs m = (.ok ⟨⟩, m')) :
    m.fds <+: m'.fds ∧ m'.head = m.head := by
  induction cs generalizing m with
  | nil =>
    cases h
    exact ⟨prefix_refl _, rfl⟩
  | cons c cs ih =>
    obtain ⟨⟨⟩, m₁, hc, hcs⟩ := of_bind_ok h
    obtain ⟨hf, hh⟩ := WriteCall.run_frame hc
    obtain ⟨hf', hh'⟩ := ih hcs
    exact ⟨hf.trans hf', hh'.trans hh⟩

/-- Induction over the calls: what has been written is what they put into the
    message. -/
theorem Written.run {cs : List WriteCall} (h : Written F es m d) (hp : ∀ c ∈ cs, c.Pointed)
    (hw : AllWithin m cs) (hrun : write_all cs m = (.ok ⟨⟩, m')) (hF : m'.fds <+: F) :
    ∃ d', Written F (es ++ cs.map WriteCall.event) m' d' := by
  induction cs generalizing m es d with
  | nil =>
    cases hrun
    rw [map_nil, append_nil]
    exact ⟨d, h⟩
  | cons c cs ih =>
    obtain ⟨⟨⟩, m₁, hc, hcs⟩ := of_bind_ok hrun
    have hF1 : m₁.fds <+: F := (write_all_frame hcs).1.trans hF
    obtain ⟨d1, h1, -⟩ := h.step (hp c mem_cons_self) hw.1 hc hF1
    have hw1 := hw.2
    rw [hc] at hw1
    have hrest := ih h1 (fun c hc => hp c (mem_cons_of_mem _ hc)) hw1 hcs
    rwa [append_assoc] at hrest

/-- Nothing has been written yet. -/
theorem Written.fresh (F : List Int) (hb : m.body = []) (hf : m.fds = []) (hc : m.containers = [])
    (hr : m.root_container = .root) : Written F [] m ⟨[], []⟩ := by
  constructor
  · rw [hb]
    rfl
  · rw [hb]
    exact zero_le _
  · unfold Stacked
    rw [hc, hr]
    refine ⟨rfl, rfl, rfl, ?_⟩
    intro t ht
    cases ht
  · rw [hf]
    exact nil_prefix
  · rw [hf]
    exact zero_le _
  · exact ⟨trivial, trivial⟩
  · rfl

/-- Types that are not those of dictionary entries may stand alone, if their
    signature is valid. -/
theorem types_ok {ts : List Ty} (hv : signature_is_valid (sigs ts) true = true)
    (hd : ∀ t ∈ ts, ∀ key value, t ≠ .dict_entry key value) : ∀ t ∈ ts, t.Ok false 0 0 := by
  obtain ⟨ts', hok, hs⟩ := types_of_valid hv
  rw [sigs_injective hs] at hok
  intro t ht
  have h := hok t ht
  cases t with
  | basic b => exact h
  | variant => exact h
  | array elem => exact h
  | struct members => exact h
  | dict_entry key value => exact absurd rfl (hd _ ht key value)

/-- When all containers are closed, the body is that of complete values. -/
theorem Written.values (h : Written F es m d) (hc : m.containers = []) :
    ∃ vs, m.body = encodes BUS_NATIVE_ENDIAN 0 vs ∧ m.root_container.enclosing = 0 ∧
      m.root_container.signature = sigs (types vs) ∧ AllValid vs ∧
      AllReadable BUS_NATIVE_ENDIAN F.length 0 0 vs ∧ all_events F vs = es ∧
      ∀ t ∈ types vs, ∀ key value, t ≠ .dict_entry key value := by
  obtain ⟨root, fs⟩ := d
  have hstacked := h.stacked
  unfold Stacked at hstacked
  rw [hc] at hstacked
  cases fs with
  | nil =>
    have hroot : RootAs m.root_container root [] := hstacked
    have hsig := hroot.signature
    have hdict := hroot.no_dict
    rw [append_nil] at hsig hdict
    exact ⟨root, h.body, hroot.enclosing, hsig, h.ok.1, h.ok.2, h.events, hdict⟩
  | cons f fs => exact hstacked.elim

end SdCompat.Bus
