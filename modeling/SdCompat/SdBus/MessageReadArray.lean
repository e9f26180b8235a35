import SdCompat.SdBus.MessageCursor

/-! # Reading an array at once, and by its elements

    `sd_bus_message_read_array` hands out the bytes of an array of a trivial
    type. Reading the elements one after the other gives the same bytes where
    the length of the array is a multiple of the size of its elements; where it
    is not, only the former succeeds.
-/

open Bytes

namespace SdCompat.Bus

open Call List Option Nat SdBusMessage

/-! ## Section 1: Element by element -/

/-- Elements are read until the end of the array; without fuel it has not come
    to its end. -/
def read_elements (type : UInt8) : Nat → Call SdBusMessage (List BodyRange)
  | 0 => abort
  | fuel + 1 => do
    match ← sd_bus_message_read_basic type with
    | none => pure []
    | some (q, _) => do
      let qs ← read_elements type fuel
      pure (q :: qs)

/-- The array that has been entered is read, and left. -/
def read_to_end (type : UInt8) : Call SdBusMessage (List BodyRange) := do
  let m ← get
  let qs ← read_elements type (m.body.length + 1)
  sd_bus_message_exit_container
  pure qs

/-- The array is entered, its elements are read, and it is left; `none` where
    there is no array to enter any more. -/
def read_one_by_one (env : ReadEnv) (type : UInt8) :
    Call SdBusMessage (Option (List BodyRange)) := do
  if !(← sd_bus_message_enter_container env SD_BUS_TYPE_ARRAY (some [type])) then pure none
  else do
    let qs ← read_to_end type
    pure (some qs)

/-- The same bytes, and as many elements. -/
def SameBytes (m : SdBusMessage) (size : Nat) (r : Option BodyRange × Nat) (qs : List BodyRange) :
    Prop :=
  r.1.elim [] m.bytes = qs.flatMap m.bytes ∧ r.2 = qs.length * size

/-- If an array can be entered and is inside the body, its length is a multiple
    of the size of its elements. -/
def WholeElements (env : ReadEnv) (type : UInt8) (size : Nat) (m : SdBusMessage) : Prop :=
  ∀ m₁ a, sd_bus_message_enter_container env SD_BUS_TYPE_ARRAY (some [type]) m = (.ok true, m₁) →
    m₁.last_container.array_size = some a → m₁.rindex + m₁.bswap ⟨a, 4⟩ ≤ m₁.body.length →
    size ∣ m₁.bswap ⟨a, 4⟩

/-! ## Section 2: One element -/

/-- A trivial type is aligned to its size. -/
theorem trivial_size {type : UInt8} (h : bus_type_is_trivial type = true) :
    ∃ size, 0 < size ∧ bus_type_get_size type = some size ∧
      bus_type_get_alignment type = some size ∧ type ≠ SD_BUS_TYPE_STRING ∧
      type ≠ SD_BUS_TYPE_OBJECT_PATH ∧ type ≠ SD_BUS_TYPE_SIGNATURE ∧
      type ≠ SD_BUS_TYPE_UNIX_FD ∧ bus_type_is_basic type = true := by
  unfold bus_type_is_trivial trivial_types at h
  simp only [contains_cons, contains_nil, Bool.or_false, Bool.or_eq_true,
    beq_iff_eq] at h
  rcases h with rfl | rfl | rfl | rfl | rfl | rfl | rfl | rfl | rfl
  · exact ⟨1, by decide⟩
  · exact ⟨4, by decide⟩
  · exact ⟨2, by decide⟩
  · exact ⟨2, by decide⟩
  · exact ⟨4, by decide⟩
  · exact ⟨4, by decide⟩
  · exact ⟨8, by decide⟩
  · exact ⟨8, by decide⟩
  · exact ⟨8, by decide⟩

/-- Where nothing is to be skipped, only the length of the buffer counts. -/
theorem peek_part_aligned {buf : List UInt8} {rindex align nbytes : Nat} (ha : 0 < align)
    (hd : align ∣ rindex) : peek_part buf rindex align nbytes =
      if rindex + nbytes ≤ buf.length then some ⟨rindex, nbytes⟩ else none := by
  unfold peek_part padding
  rw [alignTo_of_dvd ha hd]
  by_cases hle : rindex + nbytes ≤ buf.length
  · rw [if_neg (by omega), if_neg (by omega), if_neg (by simp [slice]), if_pos hle]
  · rw [if_neg hle]
    by_cases hlt : buf.length < rindex
    · rw [if_pos hlt]
    · rw [if_neg hlt, if_pos (by omega)]

variable {m : SdBusMessage}

/-- In an array the signature stays where it is. -/
theorem advanced_stays (k rindex : Nat) (h : m.last_container.enclosing = SD_BUS_TYPE_ARRAY) :
    advanced k m.last_container.saved_index rindex m = { m with rindex := rindex } := by
  rw [advanced_array h]
  exact congrArg (fun m' : SdBusMessage => { m' with rindex := rindex }) advanced_zero

/-- An array of a trivial type has been entered, and elements have been read. -/
structure InArray (type : UInt8) (size n : Nat) (m : SdBusMessage) : Prop where
  sealed : m.sealed = true
  enclosing : m.last_container.enclosing = SD_BUS_TYPE_ARRAY
  signature : m.last_container.signature = [type]
  index : m.last_container.index = 0
  array_size : ∃ a, m.last_container.array_size = some a ∧ m.bswap ⟨a, 4⟩ = n
  depth : m.containers ≠ []
  aligned : size ∣ m.rindex

section elements
variable {type : UInt8} {size n : Nat} {m : SdBusMessage}

theorem InArray.to_rindex (h : InArray type size n m) {rindex : Nat} (hd : size ∣ rindex) :
    InArray type size n { m with rindex := rindex } :=
  ⟨h.sealed, h.enclosing, h.signature, h.index, h.array_size, h.depth, hd⟩

/-- One element: the end of the array, an element inside the body, or one that
    reaches beyond its end. -/
theorem read_element (ht : bus_type_is_trivial type = true) (hs : bus_type_get_size type = some size)
    (h : InArray type size n m) :
    (m.last_container.begin + n ≤ m.rindex ∧ sd_bus_message_read_basic type m = (.ok none, m)) ∨
    (m.rindex < m.last_container.begin + n ∧ m.rindex + size ≤ m.body.length ∧
      ∃ v, sd_bus_message_read_basic type m =
        (.ok (some (⟨m.rindex, size⟩, v)), { m with rindex := m.rindex + size })) ∨
    (m.rindex < m.last_container.begin + n ∧ m.body.length < m.rindex + size ∧
      sd_bus_message_read_basic type m = (.err .EBADMSG, m)) := by
  obtain ⟨size', hpos, hs', halign, hstring, hpath, hsig, hfd, hbasic⟩ := trivial_size ht
  obtain rfl : size = size' := some.inj (hs.symm.trans hs')
  obtain ⟨a, ha, hn⟩ := h.array_size
  have hcurrent : m.last_container.current = some type := by
    unfold BusMessageContainer.current
    rw [h.signature, h.index]
    rfl
  have hend : message_end_of_array m.rindex m =
      (.ok (decide (m.last_container.begin + n ≤ m.rindex)), m) := by
    unfold message_end_of_array
    rw [get_bind_run, if_neg (not_not.mpr h.enclosing), ha]
    dsimp only
    rw [hn]
    rfl
  have hrun : sd_bus_message_read_basic type m =
      (if m.last_container.begin + n ≤ m.rindex then pure none
        else do
          check (m.last_container.current == some type) Errno.ENXIO
          let p ← read_value type m.rindex
          set_rindex p.1.stop
          skip_index 1
          pure (some p) : Call SdBusMessage (Option (BodyRange × ReadValue))) m := by
    unfold sd_bus_message_read_basic
    rw [get_bind_run, check_bind_run_true h.sealed, check_bind_run_true hbasic,
      check_bind_run_true (by unfold message_end_of_signature; rw [hcurrent]; rfl),
      bind_run_ok hend]
    by_cases hle : m.last_container.begin + n ≤ m.rindex
    · rw [if_pos hle, if_pos (decide_eq_true hle)]
    · rw [if_neg hle, if_neg (by simpa using hle)]
  by_cases hle : m.last_container.begin + n ≤ m.rindex
  · rw [if_pos hle] at hrun
    exact .inl ⟨hle, hrun⟩
  rw [if_neg hle, check_bind_run_true (by rw [hcurrent]; exact beq_self_eq_true _)] at hrun
  have hpeek : peek_body m.rindex size size m =
      if m.rindex + size ≤ m.body.length then (.ok ⟨m.rindex, size⟩, m) else (.err .EBADMSG, m) := by
    unfold peek_body message_peek_body
    rw [get_bind_run, peek_part_aligned hpos h.aligned]
    split
    · rfl
    · rfl
  by_cases hfit : m.rindex + size ≤ m.body.length
  · rw [if_pos hfit] at hpeek
    have hvalue : ∃ v, read_value type m.rindex m = (.ok (⟨m.rindex, size⟩, v), m) := by
      unfold read_value
      rw [if_neg (by simp [hstring, hpath]), if_neg hsig, halign, hs]
      dsimp only
      rw [bind_run_ok hpeek, get_bind_run]
      split
      · exact ⟨_, rfl⟩
      · exact ⟨_, rfl⟩
    obtain ⟨v, hv⟩ := hvalue
    refine .inr (.inl ⟨by omega, hfit, v, ?_⟩)
    rw [hrun, bind_run_ok hv]
    unfold set_rindex
    rw [modify_bind_run, bind_run_ok (skip_index_run 1), advanced_stays 1 _ h.enclosing]
    rfl
  · rw [if_neg hfit] at hpeek
    refine .inr (.inr ⟨by omega, by omega, ?_⟩)
    have hvalue : read_value type m.rindex m = (.err .EBADMSG, m) := by
      unfold read_value
      rw [if_neg (by simp [hstring, hpath]), if_neg hsig, halign, hs]
      dsimp only
      rw [bind_run, hpeek]
    rw [hrun, bind_run, hvalue]

/-- Reading on, in a message whose body is the same. -/
theorem bytes_of_body {m' : SdBusMessage} (h : m'.body = m.body) (q : BodyRange) :
    m'.bytes q = m.bytes q := by
  unfold bytes
  rw [h]

section
variable (ht : bus_type_is_trivial type = true) (hs : bus_type_get_size type = some size)
  (h : InArray type size n m)
include ht hs h

/-- The elements that have been read are one after the other, and the last one
    reaches the end of the array. -/
theorem read_elements_ok {fuel : Nat} {qs : List BodyRange} {m' : SdBusMessage}
    (hrun : read_elements type fuel m = (.ok qs, m')) :
    m' = { m with rindex := m.rindex + qs.length * size } ∧
      m.last_container.begin + n ≤ m.rindex + qs.length * size ∧
      (qs ≠ [] → m.rindex + qs.length * size ≤ m.body.length) ∧
      qs.flatMap m.bytes = slice m.body m.rindex (qs.length * size) := by
  induction fuel generalizing m qs with
  | zero => cases hrun
  | succ fuel ih =>
    obtain ⟨r, m₁, hr, hrun⟩ := of_bind_ok hrun
    rcases read_element ht hs h with ⟨hend, he⟩ | ⟨hlt, hfit, v, he⟩ | ⟨-, -, he⟩
    · -- the end
      cases hr.symm.trans he
      cases hrun
      exact ⟨by simp, by simpa using hend, fun hne => absurd rfl hne, by simp [slice]⟩
    · -- one more
      cases hr.symm.trans he
      obtain ⟨qs', m2, hqs, hrun⟩ := of_bind_ok hrun
      cases hrun
      obtain ⟨rfl, hreach, hinside, hbytes⟩ := ih (h.to_rindex (Nat.dvd_add h.aligned (Nat.dvd_refl size))) hqs
      have hlen : (qs'.length + 1) * size = size + qs'.length * size := by
        rw [succ_mul, add_comm]
      rw [length_cons, hlen, ← add_assoc]
      refine ⟨rfl, hreach, fun _ => ?_, ?_⟩
      · by_cases hne : qs' = []
        · rw [hne]
          simpa using hfit
        · exact hinside hne
      · have hbytes' : qs'.flatMap m.bytes = slice m.body (m.rindex + size) (qs'.length * size) :=
          hbytes
        rw [flatMap_cons, hbytes']
        unfold bytes slice
        rw [take_add, drop_drop]
    · cases hr.symm.trans he

/-- All elements of an array that is inside the body, and holds a number of
    them, are read. -/
theorem read_elements_run {fuel k : Nat} (hend : m.last_container.begin + n = m.rindex + k * size)
    (hfit : 0 < k → m.rindex + k * size ≤ m.body.length) (hf : k < fuel) :
    ∃ qs, read_elements type fuel m = (.ok qs, { m with rindex := m.rindex + k * size }) ∧
      qs.length = k := by
  have hpos : 0 < size := by
    obtain ⟨size', hpos, hs', -⟩ := trivial_size ht
    obtain rfl : size = size' := some.inj (hs.symm.trans hs')
    exact hpos
  induction fuel generalizing m k with
  | zero => omega
  | succ fuel ih =>
    rw [read_elements]
    cases k with
    | zero =>
      rcases read_element ht hs h with ⟨_, he⟩ | ⟨hlt, _⟩ | ⟨hlt, _⟩
      · refine ⟨[], ?_, rfl⟩
        rw [bind_run_ok he]
        simp
      · omega
      · omega
    | succ k =>
      have hlen : (k + 1) * size = size + k * size := by rw [Nat.succ_mul, Nat.add_comm]
      have hfit := hfit (Nat.succ_pos k)
      rw [hlen] at hend hfit
      rcases read_element ht hs h with ⟨hle, _⟩ | ⟨_, _, v, he⟩ | ⟨_, hout, _⟩
      · omega
      · obtain ⟨qs, hqs, hk⟩ := ih (m := { m with rindex := m.rindex + size }) (k := k)
          (h.to_rindex (Nat.dvd_add h.aligned (Nat.dvd_refl size)))
          (by rw [← Nat.add_assoc] at hend; exact hend)
          (fun _ => by rw [← Nat.add_assoc] at hfit; exact hfit) (by omega)
        refine ⟨⟨m.rindex, size⟩ :: qs, ?_, by rw [length_cons, hk]⟩
        rw [bind_run_ok he]
        dsimp only
        rw [bind_run_ok hqs, hlen, ← Nat.add_assoc]
        rfl
      · omega

end

end elements

/-! ## Section 3: The array -/

section arrays
variable {type : UInt8} {size : Nat} {m m₁ : SdBusMessage}

/-- The first element is aligned. -/
theorem bus_message_enter_array_ok {align a : Nat} (ha : bus_type_get_alignment type = some align)
    (h : bus_message_enter_array [type] m = (.ok a, m₁)) :
    ∃ k rindex, m₁ = advanced k m.last_container.saved_index rindex m ∧ align ∣ rindex := by
  unfold bus_message_enter_array at h
  obtain ⟨-, h⟩ := of_check_bind_ok h
  obtain ⟨-, h⟩ := of_check_bind_ok h
  obtain ⟨q, m2, hq, h⟩ := of_bind_ok h
  obtain rfl : m2 = m := by
    have := peek_body_state m m.rindex 4 4
    rwa [hq] at this
  obtain ⟨-, h⟩ := of_check_bind_ok h
  rw [headD_cons, ha] at h
  obtain ⟨e, m3, he, hrest⟩ := of_bind_ok h
  obtain rfl : m3 = m2 := by
    have := peek_body_state m2 q.stop align 0
    rwa [he] at this
  have hdvd : align ∣ e.stop := by
    unfold peek_body message_peek_body at he
    rw [get_bind_run] at he
    unfold peek_part at he
    split_ifs at he
    · cases he
    · cases he
    · cases he
    · cases he
      exact dvd_alignTo _ _
  obtain ⟨_, m4, hset, hrest⟩ := of_bind_ok hrest
  obtain rfl : { m3 with rindex := e.stop } = m4 := congrArg Prod.snd hset
  rw [bind_run_ok (skip_index_run _)] at hrest
  exact ⟨_, _, (congrArg Prod.snd hrest).symm, hdvd⟩

/-- What has been entered: the array, at its beginning. -/
theorem enter_trivial_array {env : ReadEnv} (ht : bus_type_is_trivial type = true)
    (hs : bus_type_get_size type = some size)
    (h : sd_bus_message_enter_container env SD_BUS_TYPE_ARRAY (some [type]) m = (.ok true, m₁)) :
    ∃ n, InArray type size n m₁ ∧ m₁.last_container.begin = m₁.rindex ∧ m₁.body = m.body := by
  obtain ⟨size', hpos, hs', halign, -⟩ := trivial_size ht
  obtain rfl : size = size' := some.inj (hs.symm.trans hs')
  unfold sd_bus_message_enter_container at h
  obtain ⟨hsealed, h⟩ := of_check_bind_ok h
  obtain ⟨-, h⟩ := of_check_bind_ok h
  rw [if_neg (by simp [SD_BUS_TYPE_ARRAY])] at h
  unfold enter_container at h
  obtain ⟨-, h⟩ := of_check_bind_ok h
  obtain ⟨-, h⟩ := of_check_bind_ok h
  obtain ⟨-, h⟩ := of_check_bind_ok h
  obtain ⟨r, m2, hr, h⟩ := of_bind_ok h
  obtain rfl : m2 = m := by
    have := message_end_of_array_state m m.rindex
    rwa [hr] at this
  split at h
  · cases h
  obtain ⟨-, h⟩ := of_check_bind_ok h
  rw [modify_bind_run] at h
  obtain ⟨r', m3, henter, h⟩ := of_bind_ok h
  unfold bus_message_enter at henter
  obtain ⟨a, m4, henter, hpure⟩ := of_bind_ok henter
  cases hpure
  obtain ⟨k, rindex, rfl, hd⟩ := bus_message_enter_array_ok halign henter
  cases h
  refine ⟨_, ⟨?_, rfl, rfl, rfl, ⟨a, rfl, rfl⟩, cons_ne_nil _ _, hd⟩, rfl, ?_⟩
  · unfold advanced update_last
    cases m2.containers with
    | nil => exact hsealed
    | cons c cs => exact hsealed
  · unfold advanced update_last
    cases m2.containers with
    | nil => rfl
    | cons c cs => rfl

/-- The message behind the array. -/
def behind (n : Nat) (m : SdBusMessage) : SdBusMessage :=
  { m with rindex := m.rindex + n, containers := m.containers.tail }

variable {n : Nat}

/-- The array is left where its end has been reached. -/
theorem exit_array (h : InArray type size n m) (hbegin : m.last_container.begin = m.rindex)
    (k : Nat) :
    sd_bus_message_exit_container { m with rindex := m.rindex + k } =
      if n = k then (.ok ⟨⟩, behind n m) else (.err .EBUSY, { m with rindex := m.rindex + k }) := by
  obtain ⟨a, ha, hn⟩ := h.array_size
  obtain ⟨c, rest, hc⟩ := exists_cons_of_ne_nil h.depth
  have hlast : m.last_container = c := by
    unfold last_container
    rw [hc]
    rfl
  have henc := h.enclosing
  rw [hlast] at ha henc hbegin
  unfold sd_bus_message_exit_container
  rw [get_bind_run, check_bind_run_true (by exact h.sealed)]
  rw [hc]
  dsimp only
  rw [if_neg (not_not.mpr henc), ha]
  dsimp only
  have hswap : bswap { m with rindex := m.rindex + k, containers := c :: rest } ⟨a, 4⟩
      = n := hn
  rw [hswap, hbegin]
  by_cases hend : n = k
  · rw [if_pos hend, check_bind_run_true (by rw [hend]; exact beq_self_eq_true _), hend]
    unfold behind
    rw [hc]
    rfl
  · rw [if_neg hend, check_bind_run_false (by simpa using hend)]

/-- The pointer is to bytes inside the body. -/
theorem array_pointer_run (hpos : 0 < size) (hd : size ∣ m.rindex) (n : Nat) :
    array_pointer size n m =
      if 0 < n ∧ m.body.length < m.rindex + n then (.err .EBADMSG, m)
      else (.ok (if n = 0 then none else some ⟨m.rindex, n⟩), { m with rindex := m.rindex + n }) := by
  unfold array_pointer
  by_cases hzero : n = 0
  · subst hzero
    rfl
  · rw [if_neg hzero, if_neg hzero, get_bind_run]
    unfold peek_body message_peek_body
    rw [bind_run, get_bind_run, peek_part_aligned hpos hd]
    by_cases hfit : m.rindex + n ≤ m.body.length
    · rw [if_pos hfit, if_neg (by omega)]
      rfl
    · rw [if_neg hfit, if_pos (by omega)]
      rfl

/-- The array is handed out at once where it is inside the body. -/
theorem array_bytes_run (hpos : 0 < size) (h : InArray type size n m)
    (hbegin : m.last_container.begin = m.rindex) : array_bytes size m =
      if 0 < n ∧ m.body.length < m.rindex + n then (.err .EBADMSG, m)
      else (.ok (if n = 0 then none else some ⟨m.rindex, n⟩, n), behind n m) := by
  obtain ⟨a, ha, hn⟩ := h.array_size
  have hpointer := array_pointer_run hpos h.aligned n
  unfold array_bytes
  rw [get_bind_run, ha]
  dsimp only
  rw [hn]
  by_cases hout : 0 < n ∧ m.body.length < m.rindex + n
  · rw [if_pos hout] at hpointer ⊢
    rw [bind_run, hpointer]
  · rw [if_neg hout] at hpointer ⊢
    rw [bind_run_ok hpointer, bind_run, exit_array h hbegin, if_pos rfl]
    rfl

/-- Where the elements have been read and the array left, it was a whole number
    of them, and inside the body. -/
theorem read_to_end_ok (ht : bus_type_is_trivial type = true)
    (hs : bus_type_get_size type = some size) (h : InArray type size n m)
    (hbegin : m.last_container.begin = m.rindex) {qs : List BodyRange} {m' : SdBusMessage}
    (hr : read_to_end type m = (.ok qs, m')) :
    n = qs.length * size ∧ (0 < n → m.rindex + n ≤ m.body.length) ∧ m' = behind n m ∧
      qs.flatMap m.bytes = slice m.body m.rindex n := by
  unfold read_to_end at hr
  rw [get_bind_run] at hr
  obtain ⟨qs', m2, hqs, hr⟩ := of_bind_ok hr
  obtain ⟨rfl, -, hinside, hbytes⟩ := read_elements_ok ht hs h hqs
  rw [bind_run, exit_array h hbegin] at hr
  by_cases hn : n = qs'.length * size
  · rw [if_pos hn] at hr
    cases hr
    refine ⟨hn, fun h0 => ?_, rfl, hn ▸ hbytes⟩
    rw [hn]
    refine hinside ?_
    rintro rfl
    simp at hn
    omega
  · rw [if_neg hn] at hr
    cases hr

section
variable (hpos : 0 < size) (ht : bus_type_is_trivial type = true)
  (hs : bus_type_get_size type = some size)
include hpos ht hs

/-- All elements are read of an array that is inside the body and holds a whole
    number of them. -/
theorem read_to_end_run {k : Nat} (h : InArray type size (k * size) m)
    (hbegin : m.last_container.begin = m.rindex)
    (hfit : 0 < k → m.rindex + k * size ≤ m.body.length) :
    ∃ qs, read_to_end type m = (.ok qs, behind (k * size) m) := by
  have hk : k < m.body.length + 1 := by
    rcases Nat.eq_zero_or_pos k with rfl | hk
    · omega
    · have := hfit hk
      have : k ≤ k * size := Nat.le_mul_of_pos_right k hpos
      omega
  obtain ⟨qs, hqs, -⟩ := read_elements_run ht hs h (by rw [hbegin]) hfit hk
  refine ⟨qs, ?_⟩
  unfold read_to_end
  rw [get_bind_run, bind_run_ok hqs, bind_run, exit_array h hbegin, if_pos rfl]
  rfl

/-- Once the array has been entered, the two ways of reading it agree exactly
    where it is a whole number of elements, or reaches out of the body. -/
theorem array_bytes_agrees {n : Nat} (h : InArray type size n m₁)
    (hbegin : m₁.last_container.begin = m₁.rindex) (hbody : m₁.body = m.body) :
    Agree (SameBytes m size) (array_bytes size) (read_to_end type) m₁ ↔
      (m₁.rindex + n ≤ m₁.body.length → size ∣ n) := by
  have hrun := array_bytes_run hpos h hbegin
  -- the pointer is to the bytes of the elements
  have hsame : ∀ qs : List BodyRange, qs.flatMap m₁.bytes = slice m₁.body m₁.rindex n →
      n = qs.length * size → SameBytes m size (if n = 0 then none else some ⟨m₁.rindex, n⟩, n) qs := by
    intro qs hqs hn
    refine ⟨?_, hn⟩
    have hmap : qs.flatMap m.bytes = slice m₁.body m₁.rindex n := by
      rw [← hqs]
      exact congrArg (flatMap · qs) (funext fun q => (bytes_of_body hbody q).symm)
    rw [hmap]
    by_cases hzero : n = 0
    · rw [hzero]
      simp [slice]
    · rw [if_neg hzero]
      exact (bytes_of_body hbody _).symm
  constructor
  · rintro ⟨hagree, -⟩ hfit
    rw [if_neg (by omega)] at hrun
    obtain ⟨qs, hqs, -⟩ := hagree _ _ hrun
    exact ⟨qs.length, by rw [(read_to_end_ok ht hs h hbegin hqs).1, mul_comm]⟩
  · intro hd
    by_cases hout : 0 < n ∧ m₁.body.length < m₁.rindex + n
    · -- neither succeeds
      rw [if_pos hout] at hrun
      refine agree_of_not_ok (fun r m' hr => ?_) (fun qs m' hr => ?_)
      · rw [hrun] at hr
        cases hr
      · have := (read_to_end_ok ht hs h hbegin hr).2.1
        omega
    · rw [if_neg hout] at hrun
      constructor
      · intro r m' hr
        cases hrun.symm.trans hr
        obtain ⟨k, rfl⟩ : ∃ k, n = k * size := by
          by_cases hzero : n = 0
          · exact ⟨0, by rw [hzero, zero_mul]⟩
          · obtain ⟨k, hk⟩ := hd (by omega)
            exact ⟨k, by rw [hk, mul_comm]⟩
        obtain ⟨qs, hqs⟩ := read_to_end_run hpos ht hs h hbegin fun hk => by
          have := mul_pos hk hpos
          omega
        obtain ⟨hlen, -, -, hbytes⟩ := read_to_end_ok ht hs h hbegin hqs
        exact ⟨qs, hqs, hsame qs hbytes hlen⟩
      · intro qs m' hr
        obtain ⟨hlen, -, rfl, hbytes⟩ := read_to_end_ok ht hs h hbegin hr
        exact ⟨_, hrun, hsame qs hbytes hlen⟩

end

end arrays

/-! ## Section 4: The two ways -/

/-- Nothing to enter on both sides, or the same bytes. -/
def SameArray (m : SdBusMessage) (size : Nat) :
    Option (Option BodyRange × Nat) → Option (List BodyRange) → Prop
  | none, none => True
  | some r, some qs => SameBytes m size r qs
  | _, _ => False

/-- Where an array has been entered on both sides, its bytes are to be the same. -/
theorem same_array_some {m₁ : SdBusMessage} {size : Nat}
    {x : Call SdBusMessage (Option BodyRange × Nat)} {y : Call SdBusMessage (List BodyRange)} :
    Agree (SameArray m size)
        (do let r ← x
            pure (some r))
        (do let qs ← y
            pure (some qs)) m₁ ↔
      Agree (SameBytes m size) x y m₁ := by
  constructor
  · rintro ⟨hl, hr⟩
    constructor
    · intro r m' h
      obtain ⟨o, ho, hro⟩ := hl (some r) m' (by
        rw [bind_run_ok h]
        rfl)
      obtain ⟨qs, m2, hqs, ho⟩ := of_bind_ok ho
      cases ho
      exact ⟨qs, hqs, hro⟩
    · intro qs m' h
      obtain ⟨o, ho, hro⟩ := hr (some qs) m' (by
        rw [bind_run_ok h]
        rfl)
      obtain ⟨r, m2, hr, ho⟩ := of_bind_ok ho
      cases ho
      exact ⟨r, hr, hro⟩
  · intro h
    exact agree_bind h fun r qs s' _ _ hrqs => agree_pure hrqs

/-- Reading an array at once and by its elements agree exactly where an array
    that is inside the body is a whole number of elements. -/
theorem read_array_agrees (env : ReadEnv) {type : UInt8} {size : Nat} {m : SdBusMessage}
    (hsealed : m.sealed = true) (he : m.endian = BUS_NATIVE_ENDIAN)
    (ht : bus_type_is_trivial type = true) (hs : bus_type_get_size type = some size) :
    Agree (SameArray m size) (sd_bus_message_read_array env type) (read_one_by_one env type) m ↔
      WholeElements env type size m := by
  obtain ⟨size', hpos, hs', halign, -⟩ := trivial_size ht
  obtain rfl : size = size' := some.inj (hs.symm.trans hs')
  have hread : sd_bus_message_read_array env type m =
      (sd_bus_message_enter_container env SD_BUS_TYPE_ARRAY (some [type]) >>= fun entered =>
        if !entered then pure none
        else do
          let r ← cleanup (array_bytes size) message_quit_container
          pure (some r) : Call SdBusMessage (Option (Option BodyRange × Nat))) m := by
    unfold sd_bus_message_read_array
    rw [get_bind_run, check_bind_run_true hsealed, check_bind_run_true ht,
      check_bind_run_true (decide_eq_true he), halign]
  have hagree : Agree (SameArray m size) (sd_bus_message_read_array env type)
        (read_one_by_one env type) m ↔
      Agree (SameArray m size)
        (sd_bus_message_enter_container env SD_BUS_TYPE_ARRAY (some [type]) >>= fun entered =>
          if !entered then pure none
          else do
            let r ← cleanup (array_bytes size) message_quit_container
            pure (some r))
        (read_one_by_one env type) m := by
    unfold Agree
    rw [hread]
  rw [hagree]
  unfold read_one_by_one
  match henter : sd_bus_message_enter_container env SD_BUS_TYPE_ARRAY (some [type]) m with
  | (.err e, m₁) =>
    refine iff_of_true (agree_bind_of_not_ok fun a s' h => ?_) fun m2 a h => ?_
    · cases henter.symm.trans h
    · cases henter.symm.trans h
  | (.abort, m₁) =>
    refine iff_of_true (agree_bind_of_not_ok fun a s' h => ?_) fun m2 a h => ?_
    · cases henter.symm.trans h
    · cases henter.symm.trans h
  | (.ok false, m₁) =>
    -- the enclosing array is at its end
    refine iff_of_true ?_ fun m2 a h => ?_
    · rw [agree_bind_ok henter]
      exact agree_pure trivial
    · cases henter.symm.trans h
  | (.ok true, m₁) =>
    obtain ⟨n, hin, hbegin, hbody⟩ := enter_trivial_array ht hs henter
    obtain ⟨a, ha, hn⟩ := hin.array_size
    have hwhole : WholeElements env type size m ↔ (m₁.rindex + n ≤ m₁.body.length → size ∣ n) := by
      constructor
      · intro h
        have := h m₁ a henter ha
        rwa [hn] at this
      · intro h m2 a' h2 ha'
        cases henter.symm.trans h2
        obtain rfl : a = a' := some.inj (ha.symm.trans ha')
        rwa [hn]
    rw [hwhole, agree_bind_ok henter, if_neg (by decide), if_neg (by decide), same_array_some,
      agree_cleanup_iff, array_bytes_agrees hpos ht hs hin hbegin hbody]

/-- A message of this signature and body, as it was received. -/
def received (signature body : List UInt8) : SdBusMessage :=
  { sd_bus_message_new 1 true true with
    body := body
    sealed := true
    root_container :=
      { (sd_bus_message_new 1 true true).root_container with signature := signature } }

/-- An array of two numbers of two bytes. -/
theorem read_array_agrees_two :
    Agree (SameArray (received [97, 113] [4, 0, 0, 0, 1, 0, 2, 0]) 2)
      (sd_bus_message_read_array (fun _ => true) 113)
      (read_one_by_one (fun _ => true) 113) (received [97, 113] [4, 0, 0, 0, 1, 0, 2, 0]) := by
  refine (read_array_agrees (fun _ => true) rfl rfl rfl rfl).mpr fun m₁ a h ha _ => ?_
  have henter : (sd_bus_message_enter_container (fun _ => true) SD_BUS_TYPE_ARRAY (some [113])
      (received [97, 113] [4, 0, 0, 0, 1, 0, 2, 0])).2.last_container.array_size = some 0 := by
    decide +kernel
  have hsize : (sd_bus_message_enter_container (fun _ => true) SD_BUS_TYPE_ARRAY (some [113])
      (received [97, 113] [4, 0, 0, 0, 1, 0, 2, 0])).2.bswap ⟨0, 4⟩ = 4 := by
    decide +kernel
  rw [h] at henter hsize
  obtain rfl : a = 0 := some.inj (ha.symm.trans henter)
  rw [hsize]
  exact ⟨2, rfl⟩

/-- Three bytes of numbers of two bytes: the array is handed out, but its
    elements do not come to its end. -/
theorem read_array_torn :
    ¬ ∀ (env : ReadEnv) (type : UInt8) (size : Nat) (m : SdBusMessage),
      m.sealed = true → m.endian = BUS_NATIVE_ENDIAN → bus_type_is_trivial type = true →
        bus_type_get_size type = some size →
          Agree (SameArray m size) (sd_bus_message_read_array env type)
            (read_one_by_one env type) m := by
  intro h
  have hread : (sd_bus_message_read_array (fun _ => true) 113
      (received [97, 113] [3, 0, 0, 0, 1, 2, 3, 4])).1 = .ok (some (some ⟨4, 3⟩, 3)) := by
    decide +kernel
  have hone : (read_one_by_one (fun _ => true) 113
      (received [97, 113] [3, 0, 0, 0, 1, 2, 3, 4])).1 = .err .EBUSY := by
    decide +kernel
  obtain ⟨qs, hqs, -⟩ := (h (fun _ => true) 113 2 (received [97, 113] [3, 0, 0, 0, 1, 2, 3, 4])
    rfl rfl rfl rfl).1 _ _ (Prod.ext hread rfl)
  rw [hqs] at hone
  cases hone

end SdCompat.Bus
