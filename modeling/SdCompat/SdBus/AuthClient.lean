import SdCompat.SdBus.AuthServer

/-! # Client side of the authentication phase (bus-socket.c)

    `bus_socket_auth_verify_client`, and its runs over a stream that arrives
    in pieces: which streams make the client start the connection, and what is
    then left in the buffer.
-/

open Transition

namespace SdCompat.Auth

open List

/-! ## Section 1: The verifier -/

/-- The search for up to `k` lines, each with its `"\r\n"`. -/
def find_lines : Nat → List UInt8 → List (List UInt8)
  | 0, _ => []
  | k + 1, p =>
    match memmem_safe p crlf with
    | none => []
    | some l => p.take (l + 2) :: find_lines k (p.drop (l + 2))

/-- The number of lines that answer what the client sent. -/
def expected_count (b : SdBus) : Nat :=
  (if b.anonymous_auth then 1 else 2) + b.accept_fd.toNat

/-- The check of the first response in case of EXTERNAL, on the line with its
    `"\r\n"`: `DATA`, or the `OK` of old servers, whose id is ignored. -/
def first_response_ok (l : List UInt8) : Bool :=
  if l.length = 4 + 2 then (ascii "DATA").isPrefixOf l
  else if l.length = 3 + 32 + 2 then (ascii "OK ").isPrefixOf l
  else false

/-- The loop that reads the server id, two hexadecimal digits a byte. -/
def read_peer : List UInt8 → Option (List UInt8)
  | x :: y :: rest =>
    match unhexchar x, unhexchar y with
    | some x, some y => (read_peer rest).map ((x <<< 4 ||| y) :: ·)
    | _, _ => none
  | _ => some []

/-- `SD_ID128_NULL` -/
def SD_ID128_NULL : List UInt8 := List.replicate 16 0

/-- `bus_socket_auth_verify_client`; `signal` is passed on to
    `bus_start_running`. -/
def bus_socket_auth_verify_client (signal : Option Errno) (b : SdBus) : Outcome Nat × SdBus :=
  let lines := find_lines 3 b.rbuffer
  if lines.length < expected_count b then (.ok 0, b)
  else if !b.anonymous_auth && !first_response_ok (lines.getD 0 []) then (.err .EPERM, b)
  else
    let i := if b.anonymous_auth then 0 else 1
    let l := lines.getD i []
    if l.length ≠ 3 + 32 + 2 then (.err .EPERM, b)
    else if !(ascii "OK ").isPrefixOf l then (.err .EPERM, b)
    else
      let b := { b with auth := if b.anonymous_auth then .anonymous else .external }
      match read_peer ((l.drop 3).take 32) with
      | none => (.err .EINVAL, b)
      | some peer =>
        if b.server_id ≠ SD_ID128_NULL ∧ b.server_id ≠ peer then (.err .EPERM, b)
        else
          let b := { b with server_id := peer }
          let i := i + 1
          let b := if b.accept_fd then
              { b with can_fds :=
                  (memory_startswith (lines.getD i []) (ascii "AGREE_UNIX_FD")).isSome }
            else b
          let i := if b.accept_fd then i + 1 else i
          -- `assert(i == n)`
          if i ≠ lines.length then (.abort, b)
          else
            bus_start_running signal
              { b with rbuffer := b.rbuffer.drop ((lines.take i).map List.length).sum }

/-! ## Section 2: Lines of a stream -/

/-- The stream starts with these lines, followed by `rest`. -/
def starts_with_lines (lines : List (List UInt8)) (rest stream : List UInt8) : Prop :=
  stream = lines.flatMap (· ++ crlf) ++ rest ∧ ∀ l ∈ lines, ¬ crlf <:+: l

variable {l : List UInt8}

/-- The first `"\r\n"` ends the first line. -/
theorem memmem_safe_line (rest : List UInt8) (hl : ¬ crlf <:+: l) :
    memmem_safe (l ++ crlf ++ rest) crlf = some l.length := by
  induction l with
  | nil =>
    rfl
  | cons a l ih =>
    have hl' : ¬ crlf <:+: l := fun h => hl (h.trans (suffix_cons a l).isInfix)
    have hp : ¬ crlf.isPrefixOf (a :: l ++ crlf ++ rest) = true := by
      intro hp
      obtain ⟨t, ht⟩ := List.isPrefixOf_iff_prefix.mp hp
      cases l with
      | nil =>
        have : (0x0a : UInt8) = 0x0d := (cons.inj (cons.inj ht).2).1
        exact absurd this (by decide)
      | cons b l =>
        have hb := cons.inj (cons.inj ht).2
        rw [← (cons.inj ht).1, ← hb.1] at hl
        exact hl ⟨[], l, rfl⟩
    rw [memmem_safe.eq_def, if_neg hp]
    simp only [cons_append] at ih ⊢
    rw [ih hl']
    rfl

/-- What is before the first `"\r\n"` is a line. -/
theorem line_of_memmem_safe {s : List UInt8} {i : Nat} (hi : memmem_safe s crlf = some i) :
    s = s.take i ++ crlf ++ s.drop (i + 2) ∧ ¬ crlf <:+: s.take i := by
  have hpre := memmem_safe_isPrefix hi
  obtain ⟨t, ht⟩ := hpre
  have hdrop : s.drop (i + 2) = t := by
    rw [← drop_drop, ← ht]
    rfl
  refine ⟨?_, fun hin => ?_⟩
  · rw [hdrop, append_assoc, ht, take_append_drop]
  · -- an occurrence inside the line would have been found before
    obtain ⟨u, v, huv⟩ := hin
    have hlen : u.length + 2 + v.length ≤ i := by
      have := congrArg length huv
      simp only [length_append, length_take, crlf, length_cons,
        length_nil] at this
      omega
    refine memmem_safe_first hi (show u.length < i by omega) ⟨v ++ s.drop i, ?_⟩
    conv_rhs => rw [← take_append_drop i s, ← huv]
    simp

variable {lines : List (List UInt8)}

/-- The search finds the lines the buffer starts with. -/
theorem find_lines_append (rest : List UInt8) (k : Nat) (hl : ∀ l ∈ lines, ¬ crlf <:+: l) :
    find_lines (lines.length + k) (lines.flatMap (· ++ crlf) ++ rest) =
      lines.map (· ++ crlf) ++ find_lines k rest := by
  induction lines with
  | nil => simp
  | cons l lines ih =>
    have hfirst := memmem_safe_line (lines.flatMap (· ++ crlf) ++ rest) (hl l mem_cons_self)
    have hlen : (l ++ crlf).length = l.length + 2 := by simp [crlf]
    rw [show (l :: lines).length + k = (lines.length + k) + 1 by simp; omega]
    rw [find_lines, flatMap_cons, append_assoc, hfirst]
    simp only [← hlen, take_left, drop_left, map_cons, cons_append]
    rw [ih fun l' h => hl l' (mem_cons_of_mem _ h)]

/-- What the search finds are the lines the buffer starts with. -/
theorem find_lines_spec (k : Nat) (s : List UInt8) :
    ∃ lines rest, starts_with_lines lines rest s ∧ find_lines k s = lines.map (· ++ crlf) := by
  induction k generalizing s with
  | zero => exact ⟨[], s, ⟨rfl, by simp⟩, rfl⟩
  | succ k ih =>
    match hm : memmem_safe s crlf with
    | none => exact ⟨[], s, ⟨rfl, by simp⟩, by simp [find_lines, hm]⟩
    | some i =>
      obtain ⟨hs, hline⟩ := line_of_memmem_safe hm
      obtain ⟨lines, rest, ⟨hrest, hlines⟩, hfind⟩ := ih (s.drop (i + 2))
      refine ⟨s.take i :: lines, rest, ⟨?_, ?_⟩, ?_⟩
      · rw [flatMap_cons, append_assoc, ← hrest]
        exact hs
      · simpa using ⟨hline, hlines⟩
      · have htake : s.take (i + 2) = s.take i ++ crlf := by
          have hlen : (s.take i ++ crlf).length = i + 2 := by
            have := (memmem_safe_le hm).resolve_right (by simp [crlf])
            simp [crlf]; omega
          conv_lhs => rw [hs, ← hlen]
          exact take_left
        simp [find_lines, hm, hfind, htake]

/-! ## Section 3: The expected lines -/

/-- What the client was set up with. -/
structure Config where
  anonymous_auth : Bool
  accept_fd : Bool
  server_id : List UInt8

/-- The bus was set up like this. -/
def Config.of (b : SdBus) : Config := ⟨b.anonymous_auth, b.accept_fd, b.server_id⟩

/-- The first response: none in case of ANONYMOUS, else `DATA`, or an `OK`
    line of the usual length. -/
def Config.expects_first (c : Config) (first : List (List UInt8)) : Prop :=
  if c.anonymous_auth then first = []
  else ∃ l, first = [l] ∧ (l = ascii "DATA" ∨ l.length = 3 + 32 ∧ ascii "OK " <+: l)

/-- `OK` with a valid server id, the right one if it is known. -/
def Config.expects_ok (c : Config) (ok : List UInt8) : Prop :=
  ∃ hex id, ok = ascii "OK " ++ hex ∧ hex.length = 32 ∧ read_peer hex = some id ∧
    (c.server_id = SD_ID128_NULL ∨ c.server_id = id)

/-- The lines that make the client start the connection. -/
def Config.expects (c : Config) (lines : List (List UInt8)) : Prop :=
  ∃ first ok third, lines = first ++ ok :: third ∧
    c.expects_first first ∧ c.expects_ok ok ∧ third.length = c.accept_fd.toNat

variable {b : SdBus}

theorem Config.length_of_expects (h : (Config.of b).expects lines) :
    lines.length = expected_count b := by
  obtain ⟨first, ok, third, rfl, hf, -, ht⟩ := h
  simp only [length_append, length_cons, ht, expected_count]
  unfold Config.expects_first at hf
  split at hf
  · next ha =>
    simp [hf, show b.anonymous_auth = true from ha, Config.of]
    omega
  · next ha =>
    obtain ⟨l, rfl, -⟩ := hf
    simp [show b.anonymous_auth = false by simpa [Config.of] using ha, Config.of]
    omega

/-- A word that fits in a line is a prefix of the line with its `"\r\n"`
    exactly when it is one of the line. -/
theorem isPrefixOf_append_crlf {word : List UInt8} (h : word.length ≤ l.length) :
    word.isPrefixOf (l ++ crlf) ↔ word <+: l := by
  rw [List.isPrefixOf_iff_prefix]
  exact ⟨fun hp => prefix_of_prefix_length_le hp (prefix_append _ _) h,
    fun hp => hp.trans (prefix_append _ _)⟩

theorem first_response_ok_iff :
    first_response_ok (l ++ crlf) ↔ l = ascii "DATA" ∨ l.length = 3 + 32 ∧ ascii "OK " <+: l := by
  have hlen : (l ++ crlf).length = l.length + 2 := by simp [crlf]
  have hdata : (ascii "DATA").length = 4 := rfl
  have hok : (ascii "OK ").length = 3 := rfl
  unfold first_response_ok
  split_ifs with h4 h35
  · rw [isPrefixOf_append_crlf (by omega)]
    constructor
    · exact fun hp => .inl (hp.eq_of_length (by omega)).symm
    · rintro (rfl | ⟨h, -⟩)
      · exact prefix_rfl
      · omega
  · rw [isPrefixOf_append_crlf (by omega)]
    constructor
    · exact fun hp => .inr ⟨by omega, hp⟩
    · rintro (rfl | ⟨-, hp⟩)
      · omega
      · exact hp
  · constructor
    · intro h
      cases h
    · rintro (rfl | ⟨h, -⟩)
      · omega
      · omega

/-- With more than the expected lines still to come the verifier waits. -/
theorem verify_client_waits {signal : Option Errno}
    (h : (find_lines 3 b.rbuffer).length < expected_count b) :
    bus_socket_auth_verify_client signal b = (.ok 0, b) :=
  if_pos h

section verdict
variable {b : SdBus} {lines : List (List UInt8)} {rest : List UInt8}

/-- Exactly the expected number of lines, split where the code splits them. -/
theorem lines_split (hn : lines.length = expected_count b) :
    ∃ first ok third, lines = first ++ ok :: third ∧
      first.length = (if b.anonymous_auth then 0 else 1) ∧ third.length = b.accept_fd.toNat := by
  match hl : lines, ha : b.anonymous_auth with
  | [], true => simp [expected_count, ha] at hn; omega
  | [], false => simp [expected_count, ha] at hn; omega
  | [l], false => simp [expected_count, ha] at hn; omega
  | ok :: third, true =>
    exact ⟨[], ok, third, rfl, rfl, by simp [expected_count, ha] at hn; omega⟩
  | l :: ok :: third, false =>
    exact ⟨[l], ok, third, rfl, rfl, by simp [expected_count, ha] at hn; omega⟩

/-- **The verdict on the expected number of lines.** -/
theorem verify_client_verdict (signal : Option Errno)
    (hs : starts_with_lines lines rest b.rbuffer)
    (hfind : find_lines 3 b.rbuffer = lines.map (· ++ crlf))
    (hn : lines.length = expected_count b) :
    ((Config.of b).expects lines ∧ ∃ auth id can_fds,
      bus_socket_auth_verify_client signal b =
        bus_start_running signal { b with auth, can_fds, server_id := id, rbuffer := rest }) ∨
    (¬ (Config.of b).expects lines ∧ ∃ e auth,
      bus_socket_auth_verify_client signal b = (.err e, { b with auth })) := by
  obtain ⟨first, ok, third, rfl, hfl, htl⟩ := lines_split hn
  have hexp : (Config.of b).expects (first ++ ok :: third) ↔
      (Config.of b).expects_first first ∧ (Config.of b).expects_ok ok := by
    constructor
    · rintro ⟨first', ok', third', heq, hf, ho, ht⟩
      obtain ⟨rfl, heq'⟩ := append_inj' heq (by simp [htl, ht, Config.of])
      rw [(cons.inj heq').1]
      exact ⟨hf, ho⟩
    · exact fun ⟨hf, ho⟩ => ⟨first, ok, third, rfl, hf, ho, htl⟩
  have hwait : ¬ (find_lines 3 b.rbuffer).length < expected_count b := by
    rw [hfind, length_map]; omega
  have hfirst : (!b.anonymous_auth && !first_response_ok ((find_lines 3 b.rbuffer).getD 0 [])) = true
      ↔ ¬ (Config.of b).expects_first first := by
    rw [hfind]
    match ha : b.anonymous_auth, first, hfl with
    | true, [], _ => simp [Config.expects_first, Config.of, ha]
    | false, [l], _ => simp [Config.expects_first, Config.of, ha, ← first_response_ok_iff]
  have hok : (find_lines 3 b.rbuffer).getD (if b.anonymous_auth then 0 else 1) [] = ok ++ crlf := by
    rw [hfind, ← hfl]
    simp
  have hcount : (find_lines 3 b.rbuffer).length =
      (if b.accept_fd then (if b.anonymous_auth then 0 else 1) + 1 + 1
        else (if b.anonymous_auth then 0 else 1) + 1) := by
    rw [hfind, ← hfl]
    cases ha : b.accept_fd <;> simp [htl, ha]
  have hrest : b.rbuffer.drop ((find_lines 3 b.rbuffer).map length).sum = rest := by
    rw [hfind, hs.1, flatMap_def, ← length_flatten, drop_left]
  have hlen : (ok ++ crlf).length = ok.length + 2 := by simp [crlf]
  unfold bus_socket_auth_verify_client
  dsimp only
  rw [if_neg hwait]
  by_cases hf : (Config.of b).expects_first first
  swap
  · rw [if_pos (hfirst.mpr hf)]
    exact .inr ⟨fun h => hf (hexp.mp h).1, .EPERM, b.auth, rfl⟩
  rw [if_neg (fun h => hfirst.mp h hf), hok]
  by_cases h35 : (ok ++ crlf).length = 3 + 32 + 2
  swap
  · rw [if_pos h35]
    refine .inr ⟨fun h => h35 ?_, .EPERM, b.auth, rfl⟩
    obtain ⟨hex, id, rfl, hhex, -⟩ := (hexp.mp h).2
    simp [hhex, crlf, ascii]
  rw [if_neg (not_not.mpr h35)]
  by_cases hp : ascii "OK " <+: ok
  swap
  · have h3 : (ascii "OK ").length ≤ ok.length := by
      show 3 ≤ ok.length
      omega
    have hp' : (ascii "OK ").isPrefixOf (ok ++ crlf) = false := by
      exact Bool.eq_false_iff.mpr (mt (isPrefixOf_append_crlf h3).mp hp)
    rw [hp']
    refine .inr ⟨fun h => hp ?_, .EPERM, b.auth, rfl⟩
    obtain ⟨hex, id, rfl, -⟩ := (hexp.mp h).2
    exact prefix_append _ _
  obtain ⟨hex, rfl⟩ := hp
  have hhex : hex.length = 32 := by
    simp [crlf, ascii] at h35
    omega
  have hp' : (ascii "OK ").isPrefixOf (ascii "OK " ++ hex ++ crlf) = true := by
    rw [isPrefixOf_append_crlf (by simp)]
    exact prefix_append _ _
  have hpeer : ((ascii "OK " ++ hex ++ crlf).drop 3).take 32 = hex := by
    rw [← hhex]
    simp [ascii]
  rw [if_neg (by simp), hpeer]
  match hid : read_peer hex with
  | none =>
    refine .inr ⟨fun h => ?_, .EINVAL, _, rfl⟩
    obtain ⟨hex', id, heq, -, hr, -⟩ := (hexp.mp h).2
    rw [← append_cancel_left heq, hid] at hr
    cases hr
  | some peer =>
    dsimp only
    by_cases hpe : b.server_id ≠ SD_ID128_NULL ∧ b.server_id ≠ peer
    · rw [if_pos hpe]
      refine .inr ⟨fun h => ?_, .EPERM, _, rfl⟩
      obtain ⟨hex', id, heq, -, hr, hid'⟩ := (hexp.mp h).2
      rw [← append_cancel_left heq, hid] at hr
      cases hr
      exact hid'.elim hpe.1 hpe.2
    · rw [if_neg hpe]
      have hok' : (Config.of b).expects_ok (ascii "OK " ++ hex) :=
        ⟨hex, peer, rfl, hhex, hid, by tauto⟩
      refine .inl ⟨hexp.mpr ⟨hf, hok'⟩, ?_⟩
      cases ha : b.accept_fd with
      | true =>
        simp only [ha, if_true] at hcount ⊢
        rw [if_neg (fun h => h hcount.symm), ← hcount, take_length, hrest]
        exact ⟨_, _, _, rfl⟩
      | false =>
        simp only [ha, Bool.false_eq_true, if_false] at hcount ⊢
        rw [if_neg (fun h => h hcount.symm), ← hcount, take_length, hrest]
        exact ⟨_, _, _, rfl⟩

end verdict

/-! ## Section 4: Runs -/

/-- A client, what it was set up with, every byte it has read, and what it
    returned when it last looked at the lines. -/
structure Client where
  bus : SdBus
  config : Config
  stream : List UInt8
  outcome : Option (Outcome Nat)

/-- The steps of a client. -/
inductive ClientLabel where
  | receive (bs : List UInt8)
  | sent (k : Nat)
  | verify (signal : Option Errno)

/-- A client in the authentication phase, from its start on; a failed
    assertion ends the process. -/
def client : System Client ClientLabel where
  init := fun s =>
    s.bus.state = .authenticating ∧
    s.bus.rbuffer = [] ∧
    s.config = .of s.bus ∧
    s.stream = [] ∧
    s.outcome = none
  step := fun s l s' =>
    s.bus.state = .authenticating ∧ s.outcome ≠ some .abort ∧
    match l with
    | .receive bs =>
        s' = { s with bus := { s.bus with rbuffer := s.bus.rbuffer ++ bs },
                      stream := s.stream ++ bs }
    | .sent k => s' = { s with bus := advance_auth_iovec s.bus k }
    | .verify signal =>
        let r := bus_socket_auth_verify_client signal s.bus
        s' = { s with bus := r.2, outcome := some r.1 }

/-- Among the lines that are searched, none is complete behind those that are
    expected. -/
def no_line_behind (s : Client) : ClientLabel → Prop
  | .verify _ => (find_lines 3 s.bus.rbuffer).length ≤ expected_count s.bus
  | _ => True

/-- The stream starts with the expected lines, and goes on with `rest`. -/
def expected_stream (c : Config) (stream rest : List UInt8) : Prop :=
  ∃ lines, c.expects lines ∧ starts_with_lines lines rest stream

/-- The invariant: while the phase lasts the buffer is the stream; when it is
    over the stream was as expected, and the buffer is what followed. -/
structure ClientInv (s : Client) : Prop where
  alive : s.outcome ≠ some .abort
  phase : s.bus.state = .authenticating → s.bus.rbuffer = s.stream ∧ Config.of s.bus = s.config
  started : s.bus.state ≠ .authenticating → expected_stream s.config s.stream s.bus.rbuffer

/-- What a look at the lines does, none being complete behind the expected
    ones. -/
theorem verify_client_cases (signal : Option Errno) (hst : b.state = .authenticating)
    (hn : (find_lines 3 b.rbuffer).length ≤ expected_count b) :
    let r := bus_socket_auth_verify_client signal b
    r.1 ≠ .abort ∧
    ((r.2.state ≠ .authenticating ∧ expected_stream (.of b) b.rbuffer r.2.rbuffer) ∨
     (r.2.state = .authenticating ∧ r.2.rbuffer = b.rbuffer ∧ Config.of r.2 = .of b ∧
      ∀ rest, ¬ expected_stream (.of b) b.rbuffer rest)) := by
  obtain ⟨lines, rest, hs, hfind⟩ := find_lines_spec 3 b.rbuffer
  have hlen : (find_lines 3 b.rbuffer).length = lines.length := by rw [hfind, length_map]
  -- other lines the buffer starts with are found as well
  have huniq : ∀ lines' rest', (Config.of b).expects lines' →
      starts_with_lines lines' rest' b.rbuffer → lines' = lines := by
    intro lines' rest' he hs'
    have hlen' := Config.length_of_expects he
    have h3 : expected_count b ≤ 3 := by
      unfold expected_count
      cases b.anonymous_auth <;> cases b.accept_fd <;> decide
    have hfind' := find_lines_append rest' (3 - lines'.length) hs'.2
    rw [← hs'.1, show lines'.length + (3 - lines'.length) = 3 by omega, hfind] at hfind'
    have hnil : find_lines (3 - lines'.length) rest' = [] := by
      have := congrArg length hfind'
      simp only [length_map, length_append] at this
      exact length_eq_zero_iff.mp (by omega)
    rw [hnil, append_nil] at hfind'
    exact (map_injective_iff.mpr (append_left_injective crlf) hfind').symm
  intro r
  rcases Nat.lt_or_ge lines.length (expected_count b) with hlt | hge
  · have hr : r = (.ok 0, b) := verify_client_waits (by omega)
    rw [hr]
    refine ⟨by simp, .inr ⟨hst, rfl, rfl, ?_⟩⟩
    rintro rest' ⟨lines', he, hs'⟩
    have := Config.length_of_expects he
    rw [huniq lines' rest' he hs'] at this
    omega
  · have hcount : lines.length = expected_count b := by omega
    rcases verify_client_verdict signal hs hfind hcount with
      ⟨he, auth, id, can_fds, hr⟩ | ⟨he, e, auth, hr⟩
    · have hst' := bus_start_running_state signal
        { b with auth, can_fds, server_id := id, rbuffer := rest }
      have hrest := bus_start_running_rbuffer signal
        { b with auth, can_fds, server_id := id, rbuffer := rest }
      rw [show r = _ from hr]
      refine ⟨bus_start_running_no_abort _ _, .inl ⟨?_, lines, he, ?_⟩⟩
      · rw [hst']
        split <;> simp
      · rw [hrest]
        exact hs
    · rw [show r = _ from hr]
      refine ⟨by simp, .inr ⟨hst, rfl, rfl, ?_⟩⟩
      rintro rest' ⟨lines', he', hs'⟩
      rw [huniq lines' rest' he' hs'] at he'
      exact he he'

/-- Every step with no line behind the expected ones keeps the invariant. -/
theorem ClientInv.step {s s' : Client} {l : ClientLabel} (hi : ClientInv s)
    (hst : (client.restrict no_line_behind).step s l s') : ClientInv s' := by
  obtain ⟨hn, hs, ha, h⟩ := hst
  obtain ⟨hbuf, hcfg⟩ := hi.phase hs
  match l with
  | .receive bs =>
    obtain rfl : s' = _ := h
    exact ⟨ha, fun _ => ⟨by rw [← hbuf], hcfg⟩, fun h => absurd hs h⟩
  | .sent k =>
    obtain rfl : s' = _ := h
    exact ⟨ha, fun _ => ⟨hbuf, hcfg⟩, fun h => absurd hs h⟩
  | .verify signal =>
    obtain rfl : s' = _ := h
    obtain ⟨hna, hcase⟩ := verify_client_cases signal hs hn
    rw [hbuf, hcfg] at hcase
    refine ⟨fun h => hna (Option.some.inj h), fun hst => ?_, fun hst => ?_⟩
    · rcases hcase with ⟨h, -⟩ | ⟨-, hb, hc, -⟩
      · exact absurd hst h
      · exact ⟨hb, hc⟩
    · rcases hcase with ⟨-, he⟩ | ⟨h, -⟩
      · exact he
      · exact absurd h hst

/-- The client's verifier, as reading and writing call it. -/
def verify_client (env : CallEnv) (b : SdBus) : Outcome Nat × SdBus × List Event :=
  let r := bus_socket_auth_verify_client env.signal b
  (r.1, r.2, [])

/-! ### Two streams -/

/-- A client that authenticates with EXTERNAL and does not know the server. -/
def fresh_client (accept_fd : Bool) : Client where
  bus := {
    state := .authenticating, bus_client := true, anonymous_auth := false, accept_fd,
    can_fds := false, ucred_uid := none, server_id := SD_ID128_NULL,
    rbuffer := [], auth := .invalid, auth_index := 0, auth_iovec := [[], [], []],
    auth_rbegin := 0 }
  config := ⟨false, accept_fd, SD_ID128_NULL⟩
  stream := []
  outcome := none

/-- Bytes arrive. -/
def arrived (bs : List UInt8) (s : Client) : Client :=
  { s with bus := { s.bus with rbuffer := s.bus.rbuffer ++ bs }, stream := s.stream ++ bs }

/-- The client looks at the lines. -/
def looked (s : Client) : Client :=
  let r := bus_socket_auth_verify_client none s.bus
  { s with bus := r.2, outcome := some r.1 }

/-- Bytes arrive and the client looks at the lines. -/
theorem reachable_looked {s : Client} {ok : Client → ClientLabel → Prop} (bs : List UInt8)
    (hs : Reachable (client.restrict ok) s)
    (hst : s.bus.state = .authenticating ∧ s.outcome ≠ some .abort)
    (hok : ok s (.receive bs) ∧ ok (arrived bs s) (.verify none)) :
    Reachable (client.restrict ok) (looked (arrived bs s)) :=
  .step (.step hs ⟨hok.1, hst.1, hst.2, rfl⟩) ⟨hok.2, hst.1, hst.2, rfl⟩

/-- The id line of the server in the examples. -/
def ok_line : List UInt8 := ascii "OK 0123456789abcdef0123456789abcdef\r\n"

/-- The replies arrive in three reads, the last with one byte more. -/
def client_agreed : Client :=
  looked (arrived (ok_line.drop 20 ++ ascii "AGREE_UNIX_FD\r\nl")
    (looked (arrived (ascii "TA\r\n" ++ ok_line.take 20)
      (looked (arrived (ascii "DA") (fresh_client true))))))

/-- The replies that the protocol has: `DATA` and only `DATA` first, and last
    either the agreement or an error. -/
def Config.protocol_lines (c : Config) (lines : List (List UInt8)) : Prop :=
  ∃ first ok third, lines = first ++ ok :: third ∧
    first = (if c.anonymous_auth then [] else [ascii "DATA"]) ∧ c.expects_ok ok ∧
    (if c.accept_fd then
        ∃ l, third = [l] ∧ (ascii "AGREE_UNIX_FD" <+: l ∨ ascii "ERROR" <+: l)
      else third = [])

end SdCompat.Auth
