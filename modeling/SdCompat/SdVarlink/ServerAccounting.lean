import Mathlib.Data.List.Count
import SdCompat.Basic.Call
import SdCompat.Lib.Transition

/-! # The connections of a Varlink server (sd-varlink.c)

    A server counts its connections, and with
    `SD_VARLINK_SERVER_ACCOUNT_UID` those of each user. A connection is counted
    in `sd_varlink_server_add_connection_pair`, behind the checks of
    `validate_connection` and before it is set up, and the count is taken back
    in `varlink_detach_server`, when the connection is closed or the setup
    fails.

    The callbacks for a new and for a closed connection run when the counts are
    settled, so what they do is part of the steps that follow. References,
    logging and the event sources are left out.
-/

open Transition

namespace SdCompat.Varlink

open Call List Function Nat Errno

/-! ## Section 1: Model -/

/-- `uid_is_valid` -/
def uid_is_valid (uid : Nat) : Bool := uid ≠ 0xFFFFFFFF && uid ≠ 0xFFFF

/-- What is set up for a server once. -/
structure ServerSetup where
  root_only : Bool
  myself_only : Bool
  account_uid : Bool
  connections_max : Nat
  connections_per_uid_max : Nat
  /-- `getuid ()` -/
  uid : Nat
  connections_max_fits : connections_max < 2 ^ 32
  connections_per_uid_max_fits : connections_per_uid_max < 2 ^ 32

/-- A connection of the server, with the user of the peer if the credentials
    have been acquired. -/
structure Connection where
  id : Nat
  ucred : Option Nat
  deriving DecidableEq, Repr

/-- `sd_varlink_server`. The last two fields are a record: the connections
    that refer to the server, and how many there have been. -/
structure Server where
  setup : ServerSetup
  n_connections : Nat
  by_uid : Option (Nat → Option Nat)
  live : List Connection
  next : Nat

/-- What `sd_varlink_server_add_connection_pair` meets on its way. -/
structure AddEnv where
  input_fd : Int
  output_fd : Int
  override_ucred : Option Nat
  /-- `getpeercred` -/
  peercred : Except Errno Nat
  /-- The memory for the connection, the hash table and an entry of it. -/
  connection_mem : Bool
  table_mem : Bool
  entry_mem : Bool
  /-- An error of `json_stream_attach_fds`, and one of `sd_varlink_attach_event`. -/
  attach_fds : Option Errno
  attach_event : Option Errno

namespace Server

/-- `PTR_TO_UINT (hashmap_get (server->by_uid, UID_TO_PTR (uid)))` -/
def uid_count (s : Server) (uid : Nat) : Nat :=
  match s.by_uid with
  | none => 0
  | some m => (m uid).getD 0

/-- One of the flags for which the credentials of the peer are needed. -/
def needs_ucred (s : Server) : Bool :=
  s.setup.root_only || s.setup.myself_only || s.setup.account_uid

end Server

/-- Whether the flags let this user connect. -/
def uid_allowed (s : Server) (uid : Nat) : Bool :=
  if s.setup.myself_only then (s.setup.root_only && uid = 0) || uid = s.setup.uid
  else if s.setup.root_only then uid = 0
  else true

/-- `validate_connection` -/
def validate_connection (s : Server) (uid : Nat) : Bool :=
  if !uid_allowed s uid then false
  else if s.setup.connections_max ≤ s.n_connections then false
  else if s.setup.account_uid then
    if !uid_is_valid uid then false
    else if s.setup.connections_per_uid_max ≤ s.uid_count uid then false
    else true
  else true

/-- The part of `count_connection` for the user. -/
def count_uid (env : AddEnv) (uid : Nat) : Call Server PUnit := do
  assert (uid_is_valid uid)
  let s ← get
  check (s.by_uid.isSome || env.table_mem) ENOMEM
  let m := s.by_uid.getD fun _ => none
  modify fun s => { s with by_uid := some m }
  -- there is an entry already, or memory for one
  check ((m uid).isSome || env.entry_mem) ENOMEM
  modify fun s =>
    { s with by_uid := some (update m uid (some ((s.uid_count uid + 1) % 2 ^ 32))) }

/-- `count_connection` -/
def count_connection (env : AddEnv) (uid : Nat) : Call Server PUnit := do
  let s ← get
  when s.setup.account_uid (count_uid env uid)
  modify fun s => { s with n_connections := (s.n_connections + 1) % 2 ^ 32 }

/-- The part of `varlink_detach_server` for the user. -/
def uncount_uid (uid : Nat) : Call Server PUnit := do
  let s ← get
  match s.by_uid with
  | none => pure ⟨⟩
  | some m => do
    assert (0 < s.uid_count uid)
    modify fun s =>
      { s with by_uid := some (update m uid
          (if s.uid_count uid = 1 then none else some (s.uid_count uid - 1))) }

/-- Nothing is taken back for credentials that were not acquired. -/
def uncount_ucred (v : Connection) : Call Server PUnit :=
  match v.ucred with
  | some uid => when (uid_is_valid uid) (uncount_uid uid)
  | none => pure ⟨⟩

/-- `varlink_detach_server` -/
def varlink_detach_server (v : Connection) : Call Server PUnit := do
  uncount_ucred v
  let s ← get
  assert (0 < s.n_connections)
  modify fun s =>
    { s with n_connections := s.n_connections - 1, live := s.live.erase v }

/-- The user of the peer. -/
def peer_uid (env : AddEnv) : Call Server Nat :=
  match env.override_ucred with
  | some uid => pure uid
  | none => do
    check (env.input_fd = env.output_fd) EOPNOTSUPP
    match env.peercred with
    | .error e => fail e
    | .ok uid => pure uid

/-- The part of `sd_varlink_server_add_connection_pair` up to the counting:
    the credentials, if they are needed. -/
def acquire_ucred (env : AddEnv) : Call Server (Option Nat) := do
  let s ← get
  if s.needs_ucred then do
    let uid ← peer_uid env
    check (validate_connection s uid) EPERM
    pure (some uid)
  else pure none

/-- `sd_varlink_server_add_connection_pair` -/
def sd_varlink_server_add_connection_pair (env : AddEnv) : Call Server Connection := do
  check (0 ≤ env.input_fd) EBADF
  check (0 ≤ env.output_fd) EBADF
  let ucred ← acquire_ucred env
  check env.connection_mem ENOMEM
  count_connection env (ucred.getD 0xFFFFFFFF)
  let s ← get
  let v : Connection := ⟨s.next, ucred⟩
  modify fun s => { s with live := v :: s.live, next := s.next + 1 }
  match env.attach_fds with
  | some e => do
    varlink_detach_server v
    fail e
  | none =>
    match env.attach_event with
    | some e => do
      varlink_detach_server v
      fail e
    | none => pure v

/-- `json_stream_acquire_peer_ucred`, as `sd_varlink_get_peer_uid` and others
    call it. -/
def json_stream_acquire_peer_ucred (v : Connection) (peercred : Except Errno Nat) :
    Call Server Nat :=
  match v.ucred, peercred with
  | some uid, _ => pure uid
  | none, .error e => fail e
  | none, .ok uid => do
    modify fun s =>
      { s with live := s.live.map fun w => if w = v then { w with ucred := some uid } else w }
    pure uid

/-- What is done to a server. -/
inductive ServerCall where
  | add (env : AddEnv)
  | acquire (v : Connection) (peercred : Except Errno Nat)
  | close (v : Connection)

/-- The call returned. -/
def goes_on {α : Type} : Outcome α → Bool
  | .abort => false
  | _ => true

/-- One of the calls, and whether the process goes on. A connection that is
    closed already has no server any more. -/
def ServerCall.run (s : Server) : ServerCall → Bool × Server
  | .add env =>
    let r := sd_varlink_server_add_connection_pair env s
    (goes_on r.1, r.2)
  | .acquire v peercred =>
    if v ∈ s.live then
      let r := json_stream_acquire_peer_ucred v peercred s
      (goes_on r.1, r.2)
    else (true, s)
  | .close v =>
    if v ∈ s.live then
      let r := varlink_detach_server v s
      (goes_on r.1, r.2)
    else (true, s)

/-- Calls in any order. A failed assertion ends the process. -/
def server_system : System Server ServerCall where
  init s := s.n_connections = 0 ∧ s.by_uid = none ∧ s.live = []
  step s c s' := c.run s = (true, s')

/-! ## Section 2: The counts are right -/

namespace Server

/-- The connections of a user. -/
def number (s : Server) (uid : Nat) : Nat := s.live.countP fun v => v.ucred == some uid

/-- The entry of a user in the hash table. -/
def entry (s : Server) (uid : Nat) : Option Nat := s.by_uid.bind fun m => m uid

/-- **The invariant**: both counts are those of the connections there are, and
    within the limits. -/
structure Balanced (s : Server) : Prop where
  total : s.n_connections = s.live.length
  max : s.n_connections ≤ s.setup.connections_max
  users : s.setup.account_uid = true →
    ∀ uid, s.entry uid = if s.number uid = 0 then none else some (s.number uid)
  users_max : s.setup.account_uid = true →
    ∀ uid, s.number uid ≤ s.setup.connections_per_uid_max
  known : s.setup.account_uid = true →
    ∀ v ∈ s.live, ∃ uid, v.ucred = some uid ∧ uid_is_valid uid = true
  off : s.setup.account_uid = false → s.by_uid = none

/-- There is room for one connection more, also for one of this user. -/
structure Admits (s : Server) (ucred : Option Nat) : Prop where
  total : s.n_connections < s.setup.connections_max
  user : s.setup.account_uid = true → ∃ uid, ucred = some uid ∧ uid_is_valid uid = true ∧
    s.number uid < s.setup.connections_per_uid_max

end Server

open Server

section counts
variable {s : Server} {v : Connection} {uid : Nat} {env : AddEnv} {ucred : Option Nat}

theorem uid_count_eq_entry : s.uid_count uid = (s.entry uid).getD 0 := by
  unfold uid_count entry
  cases s.by_uid with
  | none => rfl
  | some m => rfl

/-- The hash table knows how many connections a user has. -/
theorem Server.Balanced.uid_count (h : s.Balanced) (ha : s.setup.account_uid = true) :
    s.uid_count uid = s.number uid := by
  rw [uid_count_eq_entry, h.users ha uid]
  split
  · next h0 => exact h0.symm
  · rfl

theorem number_erase (hv : v ∈ s.live) :
    ({ s with live := s.live.erase v } : Server).number uid =
      s.number uid - if v.ucred = some uid then 1 else 0 := by
  unfold number
  rw [countP_erase]
  simp [hv]

theorem number_pos (hv : v ∈ s.live) (hu : v.ucred = some uid) : 0 < s.number uid :=
  countP_pos_iff.mpr ⟨v, hv, by simp [hu]⟩

/-! ### Counting -/

/-- A user who may connect is admitted. -/
theorem admits_of_validate (h : s.Balanced) (hv : validate_connection s uid = true) :
    s.Admits (some uid) := by
  unfold validate_connection at hv
  split at hv
  · cases hv
  split at hv
  · cases hv
  · next hmax =>
    refine ⟨Nat.lt_of_not_le hmax, fun ha => ?_⟩
    rw [if_pos ha] at hv
    split at hv
    · cases hv
    · next hvalid =>
      split at hv
      · cases hv
      · next hper =>
        rw [h.uid_count ha] at hper
        exact ⟨uid, rfl, by simpa using hvalid, Nat.lt_of_not_le hper⟩

/-- There is room, or the limits are checked. -/
def Room (s : Server) : Prop :=
  s.needs_ucred = true ∨ s.n_connections < s.setup.connections_max

/-- The credentials are there for whoever is counted by them. -/
theorem acquire_ucred_ensures (h : s.Balanced) (hroom : Room s) :
    Ensures (acquire_ucred env) s (fun ucred s' => s' = s ∧ s.Admits ucred) (fun s' => s' = s) := by
  refine ensures_get_bind ?_
  by_cases hneeds : s.needs_ucred = true
  · rw [if_pos hneeds]
    refine ensures_bind (R := fun _ s' => s' = s) ?_ fun uid s' hs' => ?_
    · unfold peer_uid
      cases env.override_ucred with
      | some uid => exact ensures_pure rfl
      | none =>
        refine ensures_check_bind rfl fun _ => ?_
        cases env.peercred with
        | error e => exact ensures_fail rfl
        | ok uid => exact ensures_pure rfl
    · subst hs'
      exact ensures_check_bind rfl fun hv => ensures_pure ⟨rfl, admits_of_validate h hv⟩
  · rw [if_neg hneeds]
    refine ensures_pure ⟨rfl, hroom.resolve_left hneeds, fun ha => ?_⟩
    -- who is counted by user needs credentials
    exact (hneeds (by simp [needs_ucred, ha])).elim

/-- Nothing but the table of users is changed. -/
structure Counted (s s' : Server) : Prop where
  setup : s'.setup = s.setup
  live : s'.live = s.live
  next : s'.next = s.next
  total : s'.n_connections = s.n_connections

theorem Counted.number (hc : Counted s s') : s'.number uid = s.number uid := by
  unfold Server.number
  rw [hc.live]

section
variable (h : s.Balanced)
include h

/-- **Counting a user**: one more of this user, or nothing. -/
theorem count_uid_ensures (ha : s.setup.account_uid = true) (hvalid : uid_is_valid uid = true)
    (hmax : s.number uid < s.setup.connections_per_uid_max) : Ensures (count_uid env uid) s
      (fun _ s' => Counted s s' ∧
        ∀ u, s'.entry u = if u = uid then some (s.number uid + 1) else s.entry u) Balanced := by
  refine ensures_assert_bind hvalid (ensures_get_bind ?_)
  refine ensures_check_bind h fun _ => ensures_modify_bind ?_
  have hentry : ∀ u, (s.by_uid.getD fun _ => none) u = s.entry u := by
    intro u
    unfold Server.entry
    cases s.by_uid with
    | none => rfl
    | some m => rfl
  have hb : ({ s with by_uid := some (s.by_uid.getD fun _ => none) } : Server).Balanced := by
    refine ⟨h.total, h.max, fun _ u => ?_, h.users_max, h.known, fun hoff => ?_⟩
    · exact (hentry u).trans (h.users ha u)
    · rw [show s.setup.account_uid = false from hoff] at ha
      cases ha
  refine ensures_check_bind hb fun _ => ensures_modify ?_
  refine ⟨⟨rfl, rfl, rfl, rfl⟩, fun u => ?_⟩
  have hcount : ({ s with by_uid := some (s.by_uid.getD fun _ => none) } : Server).uid_count uid =
      s.number uid := hb.uid_count ha
  have hfits := s.setup.connections_per_uid_max_fits
  show update _ uid _ u = _
  rw [hcount, mod_eq_of_lt (by omega), update_apply, hentry]

/-- **Counting a connection**: with the connection there, the counts are right
    again. -/
theorem count_connection_ensures (hadm : s.Admits ucred) :
    Ensures (count_connection env (ucred.getD 0xFFFFFFFF)) s
      (fun _ s' => s'.next = s.next ∧
        ({ s' with live := ⟨s'.next, ucred⟩ :: s'.live, next := s'.next + 1 } : Server).Balanced)
      Balanced := by
  have hfits := s.setup.connections_max_fits
  have hn := hadm.total
  refine ensures_get_bind ?_
  cases ha : s.setup.account_uid with
  | false =>
    refine ensures_modify ⟨rfl, ?_⟩
    refine ⟨?_, ?_, fun h' => ?_, fun h' => ?_, fun h' => ?_, h.off⟩
    · show (s.n_connections + 1) % 2 ^ 32 = _
      rw [mod_eq_of_lt (by omega), length_cons, h.total]
    · show (s.n_connections + 1) % 2 ^ 32 ≤ _
      rw [mod_eq_of_lt (by omega)]
      exact hn
    all_goals
      rw [show s.setup.account_uid = true from h'] at ha
      cases ha
  | true =>
    obtain ⟨uid, rfl, hvalid, hper⟩ := hadm.user ha
    refine ensures_bind (count_uid_ensures h ha hvalid hper) fun _ s' hs' => ?_
    obtain ⟨hc, hentry⟩ := hs'
    refine ensures_modify ⟨hc.next, ?_⟩
    have hsetup := hc.setup
    have hnum : ∀ (n u : Nat), ({ s' with
        n_connections := n, live := ⟨s'.next, some uid⟩ :: s'.live, next := s'.next + 1 } :
          Server).number u = s.number u + if uid = u then 1 else 0 := by
      intro n u
      rw [← hc.number]
      unfold Server.number
      rw [countP_cons]
      simp
    refine ⟨?_, ?_, fun _ u => ?_, fun _ u => ?_, fun _ w hw => ?_, fun hoff => ?_⟩
    · show (s'.n_connections + 1) % 2 ^ 32 = _
      rw [hc.total, mod_eq_of_lt (by omega), length_cons, hc.live, h.total]
    · show (s'.n_connections + 1) % 2 ^ 32 ≤ s'.setup.connections_max
      rw [hc.total, hsetup, mod_eq_of_lt (by omega)]
      exact hn
    · rw [hnum]
      show s'.entry u = _
      rw [hentry, Option.getD_some]
      by_cases hu : u = uid
      · subst hu
        simp
      · have hu' : uid ≠ u := fun h' => hu h'.symm
        rw [if_neg hu, if_neg hu']
        exact h.users ha u
    · rw [hnum]
      rw [hsetup]
      by_cases hu : uid = u
      · subst hu
        rw [if_pos rfl]
        exact hper
      · rw [if_neg hu]
        exact h.users_max ha u
    · rcases mem_cons.mp hw with rfl | hw
      · exact ⟨uid, rfl, hvalid⟩
      · rw [hc.live] at hw
        exact h.known ha w hw
    · have hoff' : s'.setup.account_uid = false := hoff
      rw [hsetup, ha] at hoff'
      cases hoff'

/-! ### Taking back -/

/-- **Taking back a user**: one less of this user. -/
theorem uncount_uid_ensures (ha : s.setup.account_uid = true) (hpos : 0 < s.number uid) :
    Ensures (uncount_uid uid) s (fun _ s' => Counted s s' ∧ ∀ u, s'.entry u =
        if u = uid then (if s.number uid = 1 then none else some (s.number uid - 1)) else s.entry u)
      (fun _ => False) := by
  refine ensures_get_bind ?_
  have huser := h.users ha uid
  rw [if_neg (by omega)] at huser
  cases hm : s.by_uid with
  | none =>
    unfold Server.entry at huser
    rw [hm] at huser
    cases huser
  | some m =>
    refine ensures_assert_bind (decide_eq_true (by rwa [h.uid_count ha])) ?_
    refine ensures_modify ⟨⟨rfl, rfl, rfl, rfl⟩, fun u => ?_⟩
    show update m uid _ u = _
    rw [h.uid_count ha, update_apply]
    unfold Server.entry
    rw [hm]
    rfl

/-- Of a connection that was counted by its user, the user is taken back. -/
theorem uncount_ucred_ensures (hv : v ∈ s.live) : Ensures (uncount_ucred v) s
      (fun _ s' => Counted s s' ∧ (s.setup.account_uid = false → s'.by_uid = none) ∧
        (s.setup.account_uid = true → ∀ u, s'.entry u =
          if v.ucred = some u then (if s.number u = 1 then none else some (s.number u - 1))
          else s.entry u)) (fun _ => False) := by
  unfold uncount_ucred
  cases ha : s.setup.account_uid with
  | true =>
    obtain ⟨uid, hu, hvalid⟩ := h.known ha v hv
    rw [hu]
    refine ensures_when (fun _ => ?_) (fun hf => by rw [hvalid] at hf; cases hf)
    refine ensures_mono (uncount_uid_ensures h ha (number_pos hv hu)) (fun _ s' hs' => ?_)
      (fun _ hf => hf)
    refine ⟨hs'.1, fun hf => (by cases hf), fun _ u => ?_⟩
    rw [hs'.2]
    by_cases hu' : u = uid
    · subst hu'
      rw [if_pos rfl, if_pos rfl]
    · rw [if_neg hu', if_neg fun h' => hu' (Option.some.inj h').symm]
  | false =>
    have hsame : ∀ ucred : Option Nat, Counted s s ∧ (false = false → s.by_uid = none) ∧
        (false = true → ∀ u, s.entry u =
          if ucred = some u then (if s.number u = 1 then none else some (s.number u - 1))
          else s.entry u) :=
      fun _ => ⟨⟨rfl, rfl, rfl, rfl⟩, fun _ => h.off ha, fun hf => by cases hf⟩
    cases v.ucred with
    | none => exact ensures_pure (hsame none)
    | some uid =>
      refine ensures_when (fun _ => ?_) (fun _ => hsame (some uid))
      refine ensures_get_bind ?_
      rw [h.off ha]
      exact ensures_pure (hsame (some uid))

/-- **Closing a connection**: without it the counts are right again, and
    neither assertion fails. -/
theorem varlink_detach_server_ensures (hv : v ∈ s.live) :
    Ensures (varlink_detach_server v) s (fun _ s' => s'.Balanced) (fun _ => False) := by
  have hpos : 0 < s.n_connections := by
    rw [h.total]
    exact length_pos_of_mem hv
  refine ensures_bind (uncount_ucred_ensures h hv) fun _ s' hs' => ?_
  obtain ⟨hc, hoff, hon⟩ := hs'
  have hsetup := hc.setup
  refine ensures_get_bind (ensures_assert_bind ?_ (ensures_modify ?_))
  · rw [hc.total]
    exact decide_eq_true hpos
  · have hnum : ∀ (n u : Nat), ({ s' with n_connections := n, live := s'.live.erase v } :
        Server).number u = s.number u - if v.ucred = some u then 1 else 0 := by
      intro n u
      rw [← hc.number]
      exact number_erase (by rwa [hc.live])
    refine ⟨?_, ?_, fun ha u => ?_, fun ha u => ?_, fun ha w hw => ?_, fun hf => ?_⟩
    · show s'.n_connections - 1 = (s'.live.erase v).length
      rw [hc.total, hc.live, length_erase_of_mem hv, h.total]
    · show s'.n_connections - 1 ≤ s'.setup.connections_max
      have := h.max
      rw [hc.total, hsetup]
      omega
    · have ha' : s'.setup.account_uid = true := ha
      rw [hsetup] at ha'
      rw [hnum]
      show s'.entry u = _
      rw [hon ha', h.users ha' u]
      by_cases hu : v.ucred = some u
      · have := number_pos hv hu
        rw [if_pos hu, if_pos hu]
        by_cases h1 : s.number u = 1
        · simp [h1]
        · rw [if_neg h1, if_neg (by omega)]
      · rw [if_neg hu, if_neg hu, Nat.sub_zero]
    · have ha' : s'.setup.account_uid = true := ha
      rw [hsetup] at ha'
      rw [hnum]
      rw [hsetup]
      exact Nat.le_trans (Nat.sub_le _ _) (h.users_max ha' u)
    · have ha' : s'.setup.account_uid = true := ha
      rw [hsetup] at ha'
      refine h.known ha' w ?_
      rw [← hc.live]
      exact mem_of_mem_erase hw
    · have hf' : s'.setup.account_uid = false := hf
      rw [hsetup] at hf'
      exact hoff hf'

/-! ### Adding -/

/-- **Adding a connection**, however far it gets. -/
theorem add_connection_ensures (hroom : Room s) :
    Ensures (sd_varlink_server_add_connection_pair env) s (fun _ s' => s'.Balanced) Balanced := by
  refine ensures_check_bind h fun _ => ensures_check_bind h fun _ => ?_
  refine ensures_bind
    (ensures_mono (acquire_ucred_ensures h hroom) (fun _ _ h' => h') (fun s' hs' => hs' ▸ h)) ?_
  intro ucred s' hs'
  obtain ⟨rfl, hadm⟩ := hs'
  refine ensures_check_bind h fun _ => ?_
  refine ensures_bind (count_connection_ensures h hadm) fun _ s1 hs1 => ?_
  refine ensures_get_bind (ensures_modify_bind ?_)
  -- what was counted is taken back when the setup fails
  have hundo : ∀ e : Errno, Ensures
      (varlink_detach_server ⟨s1.next, ucred⟩ >>= fun _ => fail e)
      { s1 with live := ⟨s1.next, ucred⟩ :: s1.live, next := s1.next + 1 }
      (fun (_ : Connection) s' => s'.Balanced) Balanced := by
    intro e
    refine ensures_bind (ensures_mono
      (varlink_detach_server_ensures hs1.2 mem_cons_self) (fun _ _ h' => h')
      (fun _ hf => hf.elim)) fun _ s2 hs2 => ?_
    exact ensures_fail hs2
  cases env.attach_fds with
  | some e => exact hundo e
  | none =>
    cases env.attach_event with
    | some e => exact hundo e
    | none => exact ensures_pure hs1.2

/-- Credentials that are acquired later belong to connections that are not
    counted by user. -/
theorem acquire_peer_ucred_ensures (hv : v ∈ s.live) (peercred : Except Errno Nat) :
    Ensures (json_stream_acquire_peer_ucred v peercred) s (fun _ s' => s'.Balanced) Balanced := by
  unfold json_stream_acquire_peer_ucred
  cases hu : v.ucred with
  | some uid => exact ensures_pure h
  | none =>
    cases peercred with
    | error e => exact ensures_fail h
    | ok uid =>
      have ha : s.setup.account_uid = false := by
        cases ha : s.setup.account_uid with
        | false => rfl
        | true =>
          obtain ⟨u, hu', -⟩ := h.known ha v hv
          rw [hu] at hu'
          cases hu'
      refine ⟨?_, h.max, fun h' => ?_, fun h' => ?_, fun h' => ?_, h.off⟩
      · show s.n_connections = (s.live.map _).length
        rw [length_map, h.total]
      all_goals
        rw [show s.setup.account_uid = true from h'] at ha
        cases ha

end

end counts

/-! ## Section 3: Runs -/

/-- The condition on a call: a connection is added only where there is room, or
    where the limits are checked. -/
def ServerCall.Guard (s : Server) : ServerCall → Prop
  | .add _ => Room s
  | .acquire _ _ | .close _ => True

/-- What a call leaves behind, and that no assertion fails. -/
theorem ServerCall.run_ensures {s : Server} (h : s.Balanced) (c : ServerCall) (hc : c.Guard s) :
    (c.run s).1 = true ∧ (c.run s).2.Balanced := by
  have hends : ∀ {α : Type} (x : Call Server α), Ensures x s (fun _ s' => s'.Balanced) Balanced →
      goes_on (x s).1 = true ∧ (x s).2.Balanced := by
    intro α x hx
    unfold Ensures at hx
    match hr : x s with
    | (.ok a, s') =>
      rw [hr] at hx
      exact ⟨rfl, hx⟩
    | (.err e, s') =>
      rw [hr] at hx
      exact ⟨rfl, hx⟩
    | (.abort, s') =>
      rw [hr] at hx
      exact hx.elim
  cases c with
  | add env => exact hends _ (add_connection_ensures h hc)
  | acquire v peercred =>
    unfold ServerCall.run
    dsimp only
    by_cases hv : v ∈ s.live
    · rw [if_pos hv]
      exact hends _ (acquire_peer_ucred_ensures h hv peercred)
    · rw [if_neg hv]
      exact ⟨rfl, h⟩
  | close v =>
    unfold ServerCall.run
    dsimp only
    by_cases hv : v ∈ s.live
    · rw [if_pos hv]
      exact hends _ (ensures_mono (varlink_detach_server_ensures h hv) (fun _ _ h' => h')
        (fun _ hf => hf.elim))
    · rw [if_neg hv]
      exact ⟨rfl, h⟩

/-- **Accounting**: where connections are added only with room, or with the
    limits checked, the counts are those of the connections there are and
    within the limits, and no assertion fails. -/
theorem server_accounting {s : Server}
    (hr : Reachable (server_system.restrict fun s c => c.Guard s) s) :
    s.Balanced ∧ ∀ c : ServerCall, c.Guard s → (c.run s).1 = true := by
  have hs : s.Balanced := by
    refine Reachable.invariant (S := server_system.restrict fun s c => c.Guard s)
      (fun s hi => ?_) (fun s c s' hs hst => ?_) hr
    · obtain ⟨hn, huid, hlive⟩ := hi
      have hzero : ∀ uid, s.number uid = 0 := by
        intro uid
        unfold Server.number
        rw [hlive]
        rfl
      refine ⟨by rw [hn, hlive]; rfl, by rw [hn]; exact zero_le _, fun _ uid => ?_,
        fun _ uid => by rw [hzero]; exact zero_le _, fun _ v hv => ?_, fun _ => huid⟩
      · rw [hzero, if_pos rfl]
        unfold Server.entry
        rw [huid]
        rfl
      · rw [hlive] at hv
        cases hv
    · have hrun := (ServerCall.run_ensures hs c hst.1).2
      rw [show c.run s = (true, s') from hst.2] at hrun
      exact hrun
  exact ⟨hs, fun c hc => (ServerCall.run_ensures hs c hc).1⟩

section unlimited

/-- A server for one connection. -/
def one_connection (account_uid : Bool) : Server where
  setup :=
    { root_only := false, myself_only := false, account_uid := account_uid, connections_max := 1,
      connections_per_uid_max := 1, uid := 0,
      connections_max_fits := by decide, connections_per_uid_max_fits := by decide }
  n_connections := 0
  by_uid := none
  live := []
  next := 0

/-- A client connects, with enough memory for it. -/
def client_connects : ServerCall :=
  .add ⟨7, 7, none, .ok 1000, true, true, true, none, none⟩

/-- Without a flag for which the credentials are needed, `connections_max` is
    never looked at. -/
theorem unlimited_connections :
    ¬ ∀ s : Server, Reachable server_system s → s.Balanced := by
  intro h
  have h0 : Reachable server_system (one_connection false) := .init ⟨rfl, rfl, rfl⟩
  have h1 : Reachable server_system (client_connects.run (one_connection false)).2 :=
    h0.step (a := client_connects) (by unfold server_system; exact Prod.ext rfl rfl)
  have h2 : Reachable server_system
      (client_connects.run (client_connects.run (one_connection false)).2).2 :=
    h1.step (a := client_connects) (by unfold server_system; exact Prod.ext rfl rfl)
  have hmax := (h _ h2).max
  exact absurd hmax (by decide +kernel)

/-- With the accounting there is one connection of the user, and the table says
    so. -/
theorem server_accounting_one :
    (client_connects.run (one_connection true)).2.Balanced ∧
      (client_connects.run (client_connects.run (one_connection true)).2).1 = true := by
  have h0 : Reachable (server_system.restrict fun s c => c.Guard s) (one_connection true) :=
    .init ⟨rfl, rfl, rfl⟩
  have h1 : Reachable (server_system.restrict fun s c => c.Guard s)
      (client_connects.run (one_connection true)).2 :=
    h0.step (a := client_connects) ⟨.inl rfl, by unfold server_system; exact Prod.ext rfl rfl⟩
  have h := server_accounting h1
  exact ⟨h.1, h.2 client_connects (.inl rfl)⟩

end unlimited

end SdCompat.Varlink
