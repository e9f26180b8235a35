import SdCompat.Basic.Common

/-! # Notifications (sd-daemon.c)

    The loop of `pid_notify_with_fds_internal`, on a socket that is there. What
    `sendmsg` returns is an argument; on a socket of any type it takes as many of
    the bytes as it says.
-/

namespace SdCompat.Daemon

open List

/-! ## Section 1: Sending -/

/-- `SOCK_DGRAM`, `SOCK_SEQPACKET` and `SOCK_STREAM` -/
inductive SocketType where
  | dgram | seqpacket | stream
  deriving DecidableEq, Repr

/-- Control data: descriptors, or credentials. -/
inductive Cmsg where
  | rights (fds : List Int)
  | credentials
  deriving DecidableEq, Repr

/-- `CMSG_SPACE` -/
def CMSG_SPACE (len : Nat) : Nat := 16 + (len + 7) / 8 * 8

/-- `sizeof(struct ucred)` -/
def SIZEOF_UCRED : Nat := 12

def Cmsg.space : Cmsg → Nat
  | .rights fds => CMSG_SPACE (4 * fds.length)
  | .credentials => CMSG_SPACE SIZEOF_UCRED

/-- `struct msghdr` -/
structure Msghdr where
  iov : List (List UInt8)
  control : List Cmsg
  controllen : Nat

/-- What `sendmsg` returns. -/
inductive SendResult where
  | sent (n : Nat)
  | error (e : Errno)
  deriving DecidableEq, Repr

/-- What a call of `sendmsg` passed on. -/
structure Sent where
  bytes : List UInt8
  control : List Cmsg
  deriving DecidableEq, Repr

/-- The control data that is found in so many bytes. -/
def cmsgs : List Cmsg → Nat → List Cmsg
  | [], _ => []
  | c :: rest, len => if len < c.space then [] else c :: cmsgs rest (len - c.space)

/-- `iovec_total_size`, of what there is memory for. -/
def iovec_total_size (iov : List (List UInt8)) : Nat := (iov.map length).sum

/-- `iovec_inc_many`; `has` is for its variable `have`. -/
def iovec_inc_many : List (List UInt8) → Nat → Bool → Outcome (List (List UInt8) × Bool)
  | [], k, has => if k = 0 then .ok ([], !has) else .abort
  | j :: rest, k, has =>
    if j = [] then do
      let (rest, done) ← iovec_inc_many rest k has
      pure (j :: rest, done)
    else if k = 0 then .ok (j :: rest, false)
    else do
      let left := j.drop (min j.length k)
      let (rest, done) ← iovec_inc_many rest (k - min j.length k) (has || left ≠ [])
      pure (left :: rest, done)

/-- The loop, and what was sent; `none` while it waits for `sendmsg`, which does
    not send more than there is. -/
def send_loop (type : SocketType) :
    List SendResult → Msghdr → Bool → List Sent → Option (Outcome Unit × List Sent)
  | [], _, _, _ => none
  | .error e :: results, m, send_ucred, sent =>
    if !send_ucred then some (.err e, sent)
    else if m.controllen < CMSG_SPACE SIZEOF_UCRED then some (.abort, sent)
    else
      let controllen := m.controllen - CMSG_SPACE SIZEOF_UCRED
      let control := if controllen = 0 then [] else m.control
      match iovec_inc_many m.iov 0 false with
      | .ok (_, true) => some (.ok ⟨⟩, sent)
      | .ok (iov, false) => send_loop type results ⟨iov, control, controllen⟩ false sent
      | .err e => some (.err e, sent)
      | .abort => some (.abort, sent)
  | .sent n :: results, m, send_ucred, sent =>
    let n := min n (iovec_total_size m.iov)
    let sent := sent ++ [⟨m.iov.flatten.take n, cmsgs m.control m.controllen⟩]
    if type ≠ .stream ∧ n < iovec_total_size m.iov then some (.err Errno.EIO, sent)
    else
      match iovec_inc_many m.iov n false with
      | .ok (_, true) => some (.ok ⟨⟩, sent)
      | .ok (iov, false) => send_loop type results ⟨iov, [], 0⟩ send_ucred sent
      | .err e => some (.err e, sent)
      | .abort => some (.abort, sent)

/-- The control data there is at first. -/
def first_control (fds : List Int) (send_ucred : Bool) : List Cmsg :=
  (if fds = [] then [] else [.rights fds]) ++ if send_ucred then [.credentials] else []

/-- `pid_notify_with_fds_internal` when there is a socket; `closing` is what goes
    wrong at the end of the message, where that is signalled. -/
def pid_notify_with_fds_internal (type : SocketType) (state : List UInt8) (fds : List Int)
    (send_ucred : Bool) (results : List SendResult) (closing : Option Errno) :
    Option (Outcome Nat × List Sent) :=
  let control := first_control fds send_ucred
  let controllen := (control.map Cmsg.space).sum
  -- `CMSG_NXTHDR` finds room for the credentials
  if fds ≠ [] ∧ send_ucred ∧ controllen < CMSG_SPACE (4 * fds.length) + 16 then some (.abort, [])
  else
    (send_loop type results ⟨[state], control, controllen⟩ send_ucred []).map fun (r, sent) =>
      (do r; (closing.elim (.ok 1) .err), sent)

/-! ## Section 2: What is promised -/

/-- Everything was sent once, in order, and the descriptors with it. -/
structure Delivered (state : List UInt8) (fds : List Int) (sent : List Sent) : Prop where
  some_sent : sent ≠ []
  bytes : sent.flatMap (·.bytes) = state
  fds_once : fds ≠ [] → (sent.filter fun s => .rights fds ∈ s.control).length = 1

/-- No assertion fails, and 1 is only returned for a message that was sent. -/
def Promised (state : List UInt8) (fds : List Int) (o : Option (Outcome Nat × List Sent)) : Prop :=
  ∀ r sent, o = some (r, sent) → r ≠ .abort ∧ (r = .ok 1 → Delivered state fds sent)

/-- `sendmsg` fails before so many bytes were sent. -/
def FailsWithin : Nat → List SendResult → Prop
  | _, [] => False
  | left, .error _ :: _ => 0 < left
  | left, .sent n :: results => n < left ∧ FailsWithin (left - n) results

/-- With credentials, an empty state that could not be sent, or a stream that
    breaks after a part of it. -/
def Lost (type : SocketType) (state : List UInt8) (send_ucred : Bool) (closing : Option Errno) :
    List SendResult → Prop
  | [] => False
  | .error _ :: _ => send_ucred = true ∧ state = [] ∧ closing = none
  | .sent n :: results => send_ucred = true ∧ type = .stream ∧ n < state.length ∧
      FailsWithin (state.length - n) results

/-! ## Section 3: The loop -/

variable {type : SocketType} {state v : List UInt8} {fds : List Int} {control : List Cmsg}
  {controllen k : Nat} {u : Bool} {sent : List Sent} {results : List SendResult}

theorem iovec_inc_many_one (hk : k ≤ v.length) :
    iovec_inc_many [v] k false = .ok ([v.drop k], !decide (k < v.length)) := by
  by_cases hv : v = []
  · subst hv
    obtain rfl : k = 0 := Nat.le_zero.mp hk
    rfl
  · have hlen := length_pos_iff.mpr hv
    by_cases h0 : k = 0
    · subst h0
      simp [iovec_inc_many, hv, hlen]
    · simp only [iovec_inc_many, if_neg hv, if_neg h0, Nat.min_eq_right hk]
      simp

/-- A call of `sendmsg` that succeeds. -/
theorem send_loop_sent (n : Nat) :
    send_loop type (.sent n :: results) ⟨[v], control, controllen⟩ u sent =
      if type ≠ .stream ∧ n < v.length then
        some (.err Errno.EIO, sent ++ [⟨v.take n, cmsgs control controllen⟩])
      else if v.length ≤ n then some (.ok ⟨⟩, sent ++ [⟨v.take n, cmsgs control controllen⟩])
      else send_loop type results ⟨[v.drop n], [], 0⟩ u
        (sent ++ [⟨v.take n, cmsgs control controllen⟩]) := by
  have htotal : iovec_total_size [v] = v.length := by simp [iovec_total_size]
  have htake : [v].flatten.take (min n v.length) = v.take n := by
    rw [flatten_singleton, ← take_eq_take_min]
  rw [send_loop]
  simp only [htotal, htake, iovec_inc_many_one (Nat.min_le_right n v.length)]
  by_cases hn : n < v.length
  · simp [Nat.min_eq_left (Nat.le_of_lt hn), hn, Nat.not_le.mpr hn]
  · simp [hn, Nat.not_lt.mp hn]

/-- What is left in the loop. -/
structure Sending (state : List UInt8) (fds : List Int) (v : List UInt8) (passes : List Cmsg)
    (sent : List Sent) : Prop where
  bytes : sent.flatMap (·.bytes) ++ v = state
  fds_once : fds ≠ [] → (sent.filter fun s => .rights fds ∈ s.control).length +
    (if .rights fds ∈ passes then 1 else 0) = 1

theorem Sending.send {passes : List Cmsg} (h : Sending state fds v passes sent) (n : Nat) :
    Sending state fds (v.drop n) [] (sent ++ [⟨v.take n, passes⟩]) where
  bytes := by simpa using h.bytes
  fds_once := fun hfds => by
    have hone := h.fds_once hfds
    by_cases hp : Cmsg.rights fds ∈ passes
    · simpa [hp] using hone
    · simpa [hp] using hone

theorem Sending.delivered (h : Sending state fds [] [] sent) (hs : sent ≠ []) :
    Delivered state fds sent :=
  ⟨hs, by simpa using h.bytes, fun hfds => by simpa using h.fds_once hfds⟩

/-- What the loop promises. -/
def Fine (state : List UInt8) (fds : List Int) (o : Option (Outcome Unit × List Sent)) : Prop :=
  ∀ r sent, o = some (r, sent) → r ≠ .abort ∧ (r = .ok ⟨⟩ → Delivered state fds sent)

theorem Fine.err {e : Errno} : Fine state fds (some (.err e, sent)) := by
  intro r _ h
  obtain ⟨rfl, -⟩ := Prod.mk.inj (Option.some.inj h)
  exact ⟨nofun, nofun⟩

theorem Fine.none : Fine state fds none := nofun

/-- A successful call, in terms of what comes behind it. -/
theorem Sending.fine {n : Nat} (h : Sending state fds v (cmsgs control controllen) sent)
    (hrest : type = .stream → n < v.length → ∀ {sent}, Sending state fds (v.drop n) [] sent →
        Fine state fds (send_loop type results ⟨[v.drop n], [], 0⟩ u sent)) :
    Fine state fds (send_loop type (.sent n :: results) ⟨[v], control, controllen⟩ u sent) := by
  have hnext := h.send n
  rw [send_loop_sent]
  split
  · exact .err
  · next hgo =>
    split
    · next hle =>
      intro r _ heq
      obtain ⟨rfl, rfl⟩ := Prod.mk.inj (Option.some.inj heq)
      rw [drop_eq_nil_of_le hle] at hnext
      exact ⟨nofun, fun _ => hnext.delivered (by simp)⟩
    · next hlt =>
      have hstream : type = .stream := by
        by_contra hne
        exact hgo ⟨hne, Nat.not_le.mp hlt⟩
      exact hrest hstream (Nat.not_le.mp hlt) hnext

/-- Without credentials, the loop keeps its promise. -/
theorem Sending.run (h : Sending state fds v (cmsgs control controllen) sent) :
    Fine state fds (send_loop type results ⟨[v], control, controllen⟩ false sent) := by
  induction results generalizing v control controllen sent with
  | nil => exact .none
  | cons result results ih =>
    cases result with
    | error e => exact .err
    | sent n => exact h.fine fun _ _ _ hnext => ih hnext

/-- With credentials, a stream that has begun aborts when it breaks. -/
theorem Sending.run_ucred (h : Sending state fds v [] sent) (hv : v ≠ [])
    (results : List SendResult) : (FailsWithin v.length results →
      ∃ sent', send_loop .stream results ⟨[v], [], 0⟩ true sent = some (.abort, sent')) ∧
    (¬ FailsWithin v.length results →
      Fine state fds (send_loop .stream results ⟨[v], [], 0⟩ true sent)) := by
  induction results generalizing v sent with
  | nil => exact ⟨nofun, fun _ => .none⟩
  | cons result results ih =>
    cases result with
    | error e => exact ⟨fun _ => ⟨sent, rfl⟩, fun hf => absurd (length_pos_iff.mpr hv) hf⟩
    | sent n =>
      have hdrop : n < v.length → v.drop n ≠ [] := fun hlt heq =>
        Nat.not_le.mpr hlt (drop_eq_nil_iff.mp heq)
      constructor
      · rintro ⟨hlt, hf⟩
        rw [← length_drop] at hf
        rw [send_loop_sent, if_neg (Nat.not_le.mpr hlt)]
        exact (ih (h.send n) (hdrop hlt)).1 hf
      · intro hf
        have hnow : Sending state fds v (cmsgs [] 0) sent := h
        refine hnow.fine fun _ hlt _ hnext => (ih hnext (hdrop hlt)).2 fun hf' => ?_
        rw [length_drop] at hf'
        exact hf ⟨hlt, hf'⟩

/-! ## Section 4: The message -/

theorem Fine.promised (closing : Option Errno) {o : Option (Outcome Unit × List Sent)}
    (h : Fine state fds o) : Promised state fds
      (o.map fun (r, sent) => (do r; (closing.elim (.ok 1) .err), sent)) := by
  intro r sent heq
  obtain ⟨⟨r', sent'⟩, ho, heq⟩ := Option.map_eq_some_iff.mp heq
  obtain ⟨rfl, rfl⟩ := Prod.mk.inj heq
  obtain ⟨hr, hd⟩ := h r' _ ho
  cases r' with
  | abort => exact absurd rfl hr
  | err e => exact ⟨nofun, nofun⟩
  | ok _ =>
    cases closing with
    | none => exact ⟨nofun, fun _ => hd rfl⟩
    | some e => exact ⟨nofun, nofun⟩

/-- Nothing was sent yet. -/
theorem sending_first (hp : fds ≠ [] → .rights fds ∈ cmsgs control controllen) :
    Sending state fds state (cmsgs control controllen) [] :=
  ⟨rfl, fun hfds => by simp [hp hfds]⟩

/-- **A notification is sent once**, unless it is lost: with credentials, when
    its state is empty and cannot be sent, or when a stream breaks. -/
theorem notify_promised_iff (type : SocketType) (state : List UInt8) (fds : List Int)
    (send_ucred : Bool) (results : List SendResult) (closing : Option Errno) :
    Promised state fds
        (pid_notify_with_fds_internal type state fds send_ucred results closing) ↔
      ¬ Lost type state send_ucred closing results := by
  have hspace : ¬ (fds ≠ [] ∧ send_ucred = true ∧
      ((first_control fds send_ucred).map Cmsg.space).sum < CMSG_SPACE (4 * fds.length) + 16) := by
    rintro ⟨hfds, rfl, hlt⟩
    simp [first_control, hfds, Cmsg.space, CMSG_SPACE, SIZEOF_UCRED] at hlt
  have hfirst : Sending state fds state (cmsgs (first_control fds send_ucred)
      ((first_control fds send_ucred).map Cmsg.space).sum) [] :=
    sending_first fun hfds => by simp [first_control, hfds, cmsgs]
  unfold pid_notify_with_fds_internal
  rw [if_neg hspace]
  cases results with
  | nil => exact iff_of_true (Fine.none.promised closing) nofun
  | cons result results =>
    cases result with
    | error e =>
      cases send_ucred with
      | false => exact iff_of_true (Fine.err.promised closing) nofun
      | true =>
        have hroom : ¬ ((first_control fds true).map Cmsg.space).sum < CMSG_SPACE SIZEOF_UCRED := by
          simp [first_control, Cmsg.space]
        rw [send_loop, if_neg (by simp), if_neg hroom, iovec_inc_many_one (Nat.zero_le _)]
        by_cases hstate : state = []
        · subst hstate
          cases closing with
          | none =>
            exact iff_of_false (fun h => ((h _ _ rfl).2 rfl).some_sent rfl)
              (not_not_intro ⟨rfl, rfl, rfl⟩)
          | some e =>
            exact iff_of_true (Fine.err.promised none) fun h => nomatch h.2.2
        · rw [decide_eq_true (length_pos_iff.mpr hstate)]
          refine iff_of_true (Fine.promised closing (Sending.run (sending_first fun hfds => ?_)))
            fun h => hstate h.2.1
          simp [first_control, hfds, Cmsg.space, CMSG_SPACE, cmsgs]
    | sent n =>
      by_cases hpart : send_ucred = true ∧ type = .stream ∧ n < state.length
      · obtain ⟨rfl, rfl, hlt⟩ := hpart
        have hdrop : state.drop n ≠ [] := fun heq =>
          Nat.not_le.mpr hlt (drop_eq_nil_iff.mp heq)
        have hrun := (hfirst.send n).run_ucred hdrop results
        rw [length_drop] at hrun
        rw [send_loop_sent, if_neg (fun hne => hne.1 rfl), if_neg (Nat.not_le.mpr hlt)]
        by_cases hf : FailsWithin (state.length - n) results
        · obtain ⟨sent', habort⟩ := hrun.1 hf
          rw [habort]
          exact iff_of_false (fun h => (h _ _ rfl).1 rfl) (not_not_intro ⟨rfl, rfl, hlt, hf⟩)
        · exact iff_of_true ((hrun.2 hf).promised closing) fun h => hf h.2.2.2
      · refine iff_of_true (Fine.promised closing (hfirst.fine fun hs hlt _ hnext => ?_))
          fun h => hpart ⟨h.1, h.2.1, h.2.2.1⟩
        obtain rfl : send_ucred = false := by
          by_contra hu
          exact hpart ⟨by simpa using hu, hs, hlt⟩
        exact hnext.run

/-- A stream that breaks behind the first byte. -/
theorem notify_aborts : ¬ Promised (ascii "READY=1") [] (pid_notify_with_fds_internal .stream
    (ascii "READY=1") [] true [.sent 1, .error .EPIPE] none) :=
  fun h => (h .abort [⟨ascii "R", [.credentials]⟩] (by decide)).1 rfl

end SdCompat.Daemon
