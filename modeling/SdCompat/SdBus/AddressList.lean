import SdCompat.SdBus.AddressText

/-! # The list of addresses

    What the addresses of a list are, each by itself, and when the calls of
    `bus_parse_next_address` give them one after the other.

    * `attempt`: what an address stands for, by its own text;
    * `Harmless`: nothing in a list that the parser stumbles over;
    * `addresses_in_order_iff`: the addresses are tried in order, each by its own
      text, exactly then.
-/

namespace SdCompat.Address

open Call List Nat

/-! ## Section 1: An address by itself -/

/-- The addresses of a list, and the keys of an address. -/
def addresses (s : List UInt8) : List (List UInt8) := s.splitOn 0x3b
def parts (u : List UInt8) : List (List UInt8) := u.splitOn 0x2c

/-- What is parsed of an address. -/
structure Parsed where
  sockaddr : Sockaddr
  sockaddr_size : Nat
  exec_path : Option (List UInt8)
  exec_argv : Option (List (List UInt8))
  server_id : List UInt8
  machine : Option (List UInt8)
  nspid : Nat
  connect_as_uid : Nat
  connect_as_gid : Nat
  is_local : Bool
  deriving DecidableEq

def Bus.parsed (b : Bus) : Parsed where
  sockaddr := b.sockaddr
  sockaddr_size := b.sockaddr_size
  exec_path := b.exec_path
  exec_argv := b.exec_argv
  server_id := b.server_id
  machine := b.machine
  nspid := b.nspid
  connect_as_uid := b.connect_as_uid
  connect_as_gid := b.connect_as_gid
  is_local := b.is_local

/-- A new bus with these addresses. -/
def Bus.fresh (address : Option (List UInt8)) : Bus where
  address := address
  address_index := 0
  sockaddr := .unspec
  sockaddr_size := 0
  exec_path := none
  exec_argv := none
  server_id := SD_ID128_NULL
  machine := none
  nspid := 0
  connect_as_uid := UID_INVALID
  connect_as_gid := UID_INVALID
  is_local := false

variable (getaddrinfo : Resolver)

/-- What is done with the values of an address. -/
def use_values {V : Type} (alone : Outcome V) (guid : V → Option (List UInt8))
    (use : V → Call Bus PUnit) (b : Bus) : Outcome (Option (List UInt8)) × Bus :=
  (parse_address ([], alone) guid use b).2

/-- An address of this transport, from its keys one by one. -/
def use_text (t : Transport) (u : List UInt8) (b : Bus) : Outcome (Option (List UInt8)) × Bus :=
  match t with
  | .unix =>
    use_values (read_parts (key_round unix_keys) .empty (parts u)) (· .guid) use_unix_address b
  | .tcp =>
    use_values (read_parts (key_round tcp_keys) .empty (parts u)) (· .guid)
      (use_tcp_address getaddrinfo) b
  | .unixexec =>
    use_values (read_parts exec_round ⟨.empty, []⟩ (parts u)) (·.values .guid) use_exec_address b
  | .machine_unix =>
    use_values (read_parts (key_round container_keys) .empty (parts u)) (· .guid)
      use_container_unix_address b

/-- What the text of an address stands for: nothing that is known, something to
    connect to, or an error. -/
def attempt (text : List UInt8) : Option (Outcome Parsed) :=
  match transport_at text with
  | none => none
  | some (t, u) => some do
    let (guid, b) := use_text getaddrinfo t u (.fresh none)
    let b ← guid >>= fun guid => use_guid guid b
    pure b.parsed

/-- The attempts that a list stands for, up to the first error. -/
def attempts : List (List UInt8) → List (Outcome Parsed)
  | [] => []
  | text :: texts =>
    match attempt getaddrinfo text with
    | none => attempts texts
    | some (.ok x) => .ok x :: attempts texts
    | some r => [r]

/-! ## Section 2: The calls -/

/-- What a call leads `bus_start_address` to try. -/
def NextAddress.tries (r : NextAddress) : Option (Outcome Parsed) :=
  match r.ret with
  | .err e => some (.err e)
  | .abort => some .abort
  | .ok more => if more && r.address.isSome then some (.ok r.bus.parsed) else none

/-- The calls, as long as there is more. -/
def next_addresses : Nat → Bus → List NextAddress
  | 0, _ => []
  | n + 1, b =>
    let r := bus_parse_next_address getaddrinfo b
    match r.ret with
    | .ok true => r :: next_addresses n r.bus
    | _ => [r]

/-- A call keeps to its address: the cursor does not get behind the end of it,
    and the bus goes on at the cursor. -/
structure NextAddress.Apart (s : List UInt8) (r : NextAddress) : Prop where
  within : ∀ t p, r.address = some (t, p) → (p.dropWhile (· ≠ 0x3b)).length ≤ r.cursor.length
  goes_on : r.ret = .ok true → s.drop r.bus.address_index = r.cursor

/-- The calls on this bus, which has the list `s`, try these addresses in order,
    each for itself. -/
def InTurn (s : List UInt8) (n : Nat) (b : Bus) (texts : List (List UInt8)) : Prop :=
  (next_addresses getaddrinfo n b).filterMap NextAddress.tries = attempts getaddrinfo texts ∧
    ∀ r ∈ next_addresses getaddrinfo n b, r.Apart s

/-- The addresses of the list are tried in order, each for itself. -/
def InOrder (s : List UInt8) : Prop :=
  ∀ n, (addresses s).length < n → InTurn getaddrinfo s n (.fresh (some s)) (addresses s)

/-! ## Section 3: What is stumbled over -/

/-- The loop of this transport runs over the end of the address. -/
def text_runs_over (t : Transport) (u : List UInt8) : Bool :=
  match t with
  | .unix => runs_over (key_round unix_keys) (known_key unix_keys) .empty (parts u)
  | .tcp => runs_over (key_round tcp_keys) (known_key tcp_keys) .empty (parts u)
  | .unixexec => runs_over exec_round known_exec ⟨.empty, []⟩ (parts u)
  | .machine_unix => runs_over (key_round container_keys) (known_key container_keys) .empty (parts u)

/-- The address gives a user or a group to connect as. -/
def gives (key : Key) (t : Transport) (u : List UInt8) : Bool :=
  t = .unix && (parts u).any key.here

/-- Nothing is wrong with a list, of which the first address is at `pos`, after
    addresses that gave a user or a group: no address but the last ends in an
    unknown key that the parser gets to, every place where the parser goes on
    fits an `unsigned`, and no address without a user or group is behind one
    with it. -/
def Harmless (pos : Nat) (uid gid : Bool) : List (List UInt8) → Prop
  | [] => True
  | text :: texts =>
    match transport_at text with
    | none =>
      (text = [] ∧ texts = [] → pos < 2 ^ 32) ∧ Harmless (pos + text.length + 1) uid gid texts
    | some (t, u) =>
      (texts ≠ [] → text_runs_over t u = false) ∧
        match attempt getaddrinfo text with
        | some (.ok _) =>
          pos + text.length < 2 ^ 32 ∧
            (uid = true → gives .uid t u = true) ∧ (gid = true → gives .gid t u = true) ∧
            Harmless (pos + text.length + 1) (gives .uid t u) (gives .gid t u) texts
        | _ => True

/-! ## Section 4: What the functions do with their values -/

/-- Two buses for which the same has been parsed, but for what
    `bus_reset_parsed_address` leaves. -/
structure Alike (b b' : Bus) : Prop where
  sockaddr : b.sockaddr = b'.sockaddr
  sockaddr_size : b.sockaddr_size = b'.sockaddr_size
  exec_path : b.exec_path = b'.exec_path
  exec_argv : b.exec_argv = b'.exec_argv
  server_id : b.server_id = b'.server_id
  machine : b.machine = b'.machine
  nspid : b.nspid = b'.nspid

/-- Two buses on the way from `b₀` and `b₀'`: alike, with the same user and
    group where there has been one, and those from before where not. -/
structure Underway (b₀ b₀' : Bus) (uid gid : Bool) (b b' : Bus) : Prop extends Alike b b' where
  address : b.address = b₀.address
  index : b.address_index = b₀.address_index
  uid : if uid then b.connect_as_uid = b'.connect_as_uid ∧ b'.connect_as_uid ≠ UID_INVALID
    else b.connect_as_uid = b₀.connect_as_uid ∧ b'.connect_as_uid = b₀'.connect_as_uid
  gid : if gid then b.connect_as_gid = b'.connect_as_gid ∧ b'.connect_as_gid ≠ UID_INVALID
    else b.connect_as_gid = b₀.connect_as_gid ∧ b'.connect_as_gid = b₀'.connect_as_gid

/-- The same, when it is known whether the connection is local. -/
structure Used (b₀ b₀' : Bus) (uid gid : Bool) (b b' : Bus) : Prop
    extends Underway b₀ b₀' uid gid b b' where
  is_local : b.is_local = b'.is_local

section use
variable {b₀ b₀' : Bus} {uid gid : Bool}

theorem use_unix_sockaddr_twice (v : Values) :
    Twice (Underway b₀ b₀' uid gid) (use_unix_sockaddr v) (Underway b₀ b₀' uid gid) := by
  unfold use_unix_sockaddr
  split
  · exact twice_fail _
  · exact twice_fail _
  · apply twice_check_bind
    apply twice_modify
    intro b b' h
    exact { h with sockaddr := rfl, sockaddr_size := rfl }
  · apply twice_check_bind
    apply twice_modify
    intro b b' h
    exact { h with sockaddr := rfl, sockaddr_size := rfl }

theorem use_uid_twice (uids : Option (List UInt8)) :
    Twice (Underway b₀ b₀' false gid) (use_uid uids) (Underway b₀ b₀' uids.isSome gid) := by
  cases uids with
  | none => exact twice_pure fun _ _ h => h
  | some uids =>
    apply twice_lift_bind
    intro uid huid
    apply twice_modify
    intro b b' h
    exact { h with uid := ⟨rfl, parse_uid_value_valid huid⟩ }

theorem use_gid_twice (gids : Option (List UInt8)) :
    Twice (Underway b₀ b₀' uid false) (use_gid gids) (Underway b₀ b₀' uid gids.isSome) := by
  cases gids with
  | none => exact twice_pure fun _ _ h => h
  | some gids =>
    apply twice_lift_bind
    intro gid hgid
    apply twice_modify
    intro b b' h
    exact { h with gid := ⟨rfl, parse_uid_value_valid hgid⟩ }

theorem use_unix_address_twice (v : Values) :
    Twice (Underway b₀ b₀' false false) (use_unix_address v)
      (Used b₀ b₀' (v .uid).isSome (v .gid).isSome) := by
  apply twice_bind (use_unix_sockaddr_twice v)
  intro _
  apply twice_bind (use_uid_twice _)
  intro _
  apply twice_bind (use_gid_twice _)
  intro _
  apply twice_modify
  intro b b' h
  exact { h with is_local := rfl }

theorem use_tcp_address_twice (v : Values) :
    Twice (Underway b₀ b₀' uid gid) (use_tcp_address getaddrinfo v) (Used b₀ b₀' uid gid) := by
  unfold use_tcp_address
  split
  · apply twice_check_bind
    split
    · exact twice_fail _
    · exact twice_fail _
    · apply twice_modify
      intro b b' h
      exact { h with sockaddr := rfl, sockaddr_size := rfl, is_local := rfl }
  · exact twice_fail _

theorem use_exec_address_twice (v : ExecValues) :
    Twice (Underway b₀ b₀' uid gid) (use_exec_address v) (Used b₀ b₀' uid gid) := by
  unfold use_exec_address
  split
  · exact twice_fail _
  · apply twice_check_bind
    apply twice_modify
    intro b b' h
    exact { h with exec_path := rfl, exec_argv := rfl, is_local := rfl }

theorem use_machine_twice (machine : Option (List UInt8)) :
    Twice (Underway b₀ b₀' uid gid) (use_machine machine) (Underway b₀ b₀' uid gid) := by
  cases machine with
  | none => exact twice_modify fun b b' h => { h with machine := rfl }
  | some machine =>
    apply twice_check_bind
    exact twice_modify fun b b' h => { h with machine := rfl }

theorem use_nspid_twice (pid : Option (List UInt8)) :
    Twice (Underway b₀ b₀' uid gid) (use_nspid pid) (Underway b₀ b₀' uid gid) := by
  cases pid with
  | none => exact twice_modify fun b b' h => { h with nspid := rfl }
  | some pid =>
    apply twice_lift_bind
    intro nspid _
    exact twice_modify fun b b' h => { h with nspid := rfl }

theorem use_container_unix_address_twice (v : Values) :
    Twice (Underway b₀ b₀' uid gid) (use_container_unix_address v) (Used b₀ b₀' uid gid) := by
  apply twice_check_bind
  apply twice_bind (use_machine_twice _)
  intro _
  apply twice_bind (use_nspid_twice _)
  intro _
  apply twice_modify
  intro b b' h
  exact { h with sockaddr := rfl, sockaddr_size := rfl, is_local := rfl }

end use

/-! ## Section 5: The keys that are there -/

section given
variable {keys : List Key} {key : Key} {v v' : Values}

variable {p : List UInt8}

theorem Key.here_unique {key key' : Key} (h : key.here p = true) (h' : key'.here p = true) :
    key = key' := by
  have hone : ∀ {k k' : Key}, (k.name ++ [0x3d]) <+: (k'.name ++ [0x3d]) → k = k' := by
    intro k k' hk
    revert hk
    cases k <;> cases k' <;> decide
  unfold Key.here at h h'
  rw [List.isPrefixOf_iff_prefix] at h h'
  rcases le_total (key.name ++ [0x3d]).length (key'.name ++ [0x3d]).length with hle | hle
  · exact hone (prefix_of_prefix_length_le h h' hle)
  · exact (hone (prefix_of_prefix_length_le h' h hle)).symm

theorem parse_keys_sets {q : List UInt8} (h : parse_keys p v keys = .ok (some (v', q))) :
    ∃ k ∈ keys, k.here p = true ∧ ∃ value, v' = v.set k value := by
  induction keys with
  | nil => cases h
  | cons k keys ih =>
    rw [parse_keys_cons] at h
    by_cases hhere : k.here p = true
    · rw [if_pos hhere] at h
      rcases parse_address_key_here hhere (v k) with ⟨⟨value, q'⟩, hr⟩ | ⟨e, hr⟩
      · rw [hr] at h
        cases h
        exact ⟨k, mem_cons_self, hhere, value, rfl⟩
      · rw [hr] at h
        cases h
    · rw [if_neg hhere] at h
      obtain ⟨k', hk', hrest⟩ := ih h
      exact ⟨k', mem_cons_of_mem _ hk', hrest⟩

/-- Where none of the keys is read none is there. -/
theorem parse_keys_none (h : parse_keys p v keys = .ok none) (hkey : key ∈ keys) :
    key.here p = false := by
  induction keys with
  | nil => cases hkey
  | cons k keys ih =>
    rw [parse_keys_cons] at h
    by_cases hhere : k.here p = true
    · rw [if_pos hhere] at h
      rcases parse_address_key_here hhere (v k) with ⟨r, hr⟩ | ⟨e, hr⟩
      · rw [hr] at h
        cases h
      · rw [hr] at h
        cases h
    · rw [if_neg hhere] at h
      rcases mem_cons.mp hkey with rfl | hmem
      · exact Bool.eq_false_iff.mpr hhere
      · exact ih h hmem

/-- A round sets the variable of the key that is there. -/
theorem key_round_sets (h : (key_round keys v p).2 = .ok v') (hkey : key ∈ keys) :
    (v' key).isSome = ((v key).isSome || key.here p) := by
  unfold key_round at h
  match hr : parse_keys p v keys with
  | .err e =>
    rw [hr] at h
    cases h
  | .abort =>
    rw [hr] at h
    cases h
  | .ok (some (w, q)) =>
    rw [hr] at h
    cases h
    obtain ⟨k, hk, hhere, value, rfl⟩ := parse_keys_sets hr
    unfold Values.set
    by_cases heq : key = k
    · subst heq
      simp [hhere]
    · have hnot : key.here p = false := by
        rw [← Bool.not_eq_true]
        intro hkey'
        exact heq (Key.here_unique hkey' hhere)
      rw [if_neg heq, hnot, Bool.or_false]
  | .ok none =>
    rw [hr] at h
    cases h
    rw [parse_keys_none hr hkey, Bool.or_false]

theorem read_parts_sets {ps : List (List UInt8)} (h : read_parts (key_round keys) v ps = .ok v')
    (hkey : key ∈ keys) : (v' key).isSome = ((v key).isSome || ps.any key.here) := by
  induction ps generalizing v with
  | nil =>
    cases h
    simp
  | cons part ps ih =>
    rw [read_parts] at h
    cases hr : (key_round keys v part).2 with
    | ok w =>
      rw [hr] at h
      rw [ih h, key_round_sets hr hkey, any_cons, Bool.or_assoc]
    | err e =>
      rw [hr] at h
      cases h
    | abort =>
      rw [hr] at h
      cases h

end given

variable {b : Bus}

/-- What is done with an address by itself, on two buses. -/
theorem use_values_twice {V : Type} {alone : Outcome V} {guid : V → Option (List UInt8)}
    {use : V → Call Bus PUnit} {b' : Bus} {R S : Bus → Bus → Prop} (hR : R b b')
    (h : ∀ v, alone = .ok v → Twice R (use v) S) :
    (use_values alone guid use b).1 = (use_values alone guid use b').1 ∧
      ∀ g, (use_values alone guid use b).1 = .ok g →
        S (use_values alone guid use b).2 (use_values alone guid use b').2 := by
  unfold use_values parse_address
  cases alone with
  | err e => exact ⟨rfl, nofun⟩
  | abort => exact ⟨rfl, nofun⟩
  | ok v =>
    obtain ⟨hsame, hok⟩ := h v rfl b b' hR
    dsimp only
    match hb : use v b, hb' : use v b' with
    | (.ok a, c), (.ok a', c') =>
      rw [hb, hb'] at hsame hok
      exact ⟨rfl, fun _ _ => hok a rfl⟩
    | (.err e, c), (.err e', c') =>
      rw [hb, hb'] at hsame
      cases hsame
      exact ⟨rfl, nofun⟩
    | (.abort, c), (.abort, c') => exact ⟨rfl, nofun⟩
    | (.ok _, _), (.err _, _) | (.ok _, _), (.abort, _) | (.err _, _), (.ok _, _)
    | (.err _, _), (.abort, _) | (.abort, _), (.ok _, _) | (.abort, _), (.err _, _) =>
      rw [hb, hb'] at hsame
      cases hsame

/-- An address by itself, on a bus from which the last one has been reset and on
    a new one. -/
theorem use_text_twice (h : Underway b (.fresh none) false false b (.fresh none)) (t : Transport)
    (u : List UInt8) : (use_text getaddrinfo t u b).1 = (use_text getaddrinfo t u (.fresh none)).1 ∧
      ∀ g, (use_text getaddrinfo t u b).1 = .ok g →
        Used b (.fresh none) (gives .uid t u) (gives .gid t u) (use_text getaddrinfo t u b).2
          (use_text getaddrinfo t u (.fresh none)).2 := by
  cases t with
  | unix =>
    apply use_values_twice h
    intro v hv
    have huid : (v .uid).isSome = gives .uid .unix u := by
      rw [read_parts_sets hv (by decide)]
      rfl
    have hgid : (v .gid).isSome = gives .gid .unix u := by
      rw [read_parts_sets hv (by decide)]
      rfl
    rw [← huid, ← hgid]
    exact use_unix_address_twice v
  | tcp => exact use_values_twice h fun v _ => use_tcp_address_twice getaddrinfo v
  | unixexec => exact use_values_twice h fun v _ => use_exec_address_twice v
  | machine_unix => exact use_values_twice h fun v _ => use_container_unix_address_twice v

/-- What a reset leaves. -/
theorem reset_underway (b : Bus) :
    Underway (bus_reset_parsed_address b) (.fresh none) false false (bus_reset_parsed_address b)
      (.fresh none) where
  sockaddr := rfl
  sockaddr_size := rfl
  exec_path := rfl
  exec_argv := rfl
  server_id := rfl
  machine := rfl
  nspid := rfl
  address := rfl
  index := rfl
  uid := ⟨rfl, rfl⟩
  gid := ⟨rfl, rfl⟩

/-- The guid is used in the same way. -/
theorem use_guid_twice {b₀ b₀' b' : Bus} {uid gid : Bool} (h : Used b₀ b₀' uid gid b b')
    (guid : Option (List UInt8)) :
    (∃ c c', use_guid guid b = .ok c ∧ use_guid guid b' = .ok c' ∧ Used b₀ b₀' uid gid c c') ∨
    (∃ e, use_guid guid b = .err e ∧ use_guid guid b' = .err e) ∨
    use_guid guid b = .abort ∧ use_guid guid b' = .abort := by
  unfold use_guid
  cases guid with
  | none => exact .inl ⟨b, b', rfl, rfl, h⟩
  | some guid =>
    dsimp only
    cases sd_id128_from_string guid with
    | ok id => exact .inl ⟨_, _, rfl, rfl, { h with server_id := rfl }⟩
    | err e => exact .inr (.inl ⟨e, rfl, rfl⟩)
    | abort => exact .inr (.inr ⟨rfl, rfl⟩)

/-! ## Section 6: One call -/

section call
variable {t : Transport} {u rest s text : List UInt8} {b : Bus}

/-- What is between separators has none, and nothing that the whole has not. -/
theorem mem_splitOn {a : UInt8} {l xs : List UInt8} (h : l ∈ xs.splitOn a) :
    a ∉ l ∧ ∀ c ∈ l, c ∈ xs := by
  induction xs generalizing l with
  | nil =>
    obtain rfl : l = [] := by simpa using h
    simp
  | cons x xs ih =>
    rw [splitOn_cons_eq_if_modifyHead] at h
    split at h
    · rcases mem_cons.mp h with rfl | h
      · simp
      · obtain ⟨hnot, hall⟩ := ih h
        exact ⟨hnot, fun c hc => mem_cons_of_mem _ (hall c hc)⟩
    · next hne =>
      obtain ⟨l', ls, hl⟩ := exists_cons_of_ne_nil (splitOn_ne_nil a xs)
      rw [hl] at h
      rw [hl] at ih
      rcases mem_cons.mp h with rfl | h
      · obtain ⟨hnot, hall⟩ := ih mem_cons_self
        refine ⟨?_, ?_⟩
        · rw [mem_cons, not_or]
          exact ⟨fun heq => hne (by simp [heq]), hnot⟩
        · intro c hc
          rcases mem_cons.mp hc with rfl | hc
          · exact mem_cons_self
          · exact mem_cons_of_mem _ (hall c hc)
      · obtain ⟨hnot, hall⟩ := ih (mem_cons_of_mem _ h)
        exact ⟨hnot, fun c hc => mem_cons_of_mem _ (hall c hc)⟩

theorem parts_plain (hu : 0x3b ∉ u) : ∀ part ∈ parts u, Plain part := by
  intro part hpart c hc
  obtain ⟨hnot, hall⟩ := mem_splitOn hpart
  have hcomma : c ≠ 0x2c := fun heq => hnot (heq ▸ hc)
  have hsemicolon : c ≠ 0x3b := fun heq => hu (heq ▸ hall c hc)
  simp [ends_value, hcomma, hsemicolon]

theorem parts_ne_nil (u : List UInt8) : parts u ≠ [] := splitOn_ne_nil _ _

theorem join_parts (u : List UInt8) : [0x2c].intercalate (parts u) = u := intercalate_splitOn _

/-- What comes of a loop that keeps to its address. -/
theorem parse_address_text {V : Type} {alone : Outcome V} {r : List UInt8 × Outcome V}
    (guid : V → Option (List UInt8)) (use : V → Call Bus PUnit) (b : Bus)
    (h : LoopReads u rest alone r) : ∃ q : List UInt8, q.length ≤ u.length ∧
      parse_address r guid use b = (q ++ rest, use_values alone guid use b) ∧
      ∀ g, (use_values alone guid use b).1 = .ok g → q = [] := by
  cases alone with
  | ok v =>
    refine ⟨[], zero_le _, ?_, fun _ _ => rfl⟩
    rw [h]
    unfold use_values parse_address
    dsimp only
    match use v b with
    | (.ok a, c) => rfl
    | (.err e, c) => rfl
    | (.abort, c) => rfl
  | err e =>
    obtain ⟨q, hq, hr⟩ := h
    refine ⟨q, hq, ?_, nofun⟩
    rw [hr]
    rfl
  | abort => exact h.elim

/-- The cursor stays where the loop left it. -/
theorem parse_address_cursor {V : Type} (r : List UInt8 × Outcome V)
    (guid : V → Option (List UInt8)) (use : V → Call Bus PUnit) (b : Bus) :
    (parse_address r guid use b).1 = r.1 := by
  unfold parse_address
  match r with
  | (p, .err e) => rfl
  | (p, .abort) => rfl
  | (p, .ok v) =>
    dsimp only
    match use v b with
    | (.ok a, c) => rfl
    | (.err e, c) => rfl
    | (.abort, c) => rfl

/-- An address in front of others is parsed as it is by itself, unless its loop
    runs over the end. -/
theorem parse_transport_text (t : Transport) (b : Bus) (hu : 0x3b ∉ u) (hrest : at_end rest = true)
    (hover : rest = [] ∨ text_runs_over t u = false) : ∃ q : List UInt8, q.length ≤ u.length ∧
      parse_transport getaddrinfo t (u ++ rest) b = (q ++ rest, use_text getaddrinfo t u b) ∧
      ∀ g, (use_text getaddrinfo t u b).1 = .ok g → q = [] := by
  have hloop : ∀ {V : Type} {round : V → List UInt8 → List UInt8 × Outcome V} {known}
      (_ : Rounds round known) (v : V),
      rest = [] ∨ runs_over round known v (parts u) = false →
      LoopReads u rest (read_parts round v (parts u))
        (address_loop round (u ++ rest).length v (u ++ rest)) := by
    intro V round known hr v hover
    have hlen : ([0x2c].intercalate (parts u)).length ≤ (u ++ rest).length := by
      rw [join_parts, length_append]
      exact le_add_right _ _
    have h := address_loop_text hr hrest (parts_ne_nil u) (parts_plain hu) v hover hlen
    rwa [join_parts] at h
  cases t with
  | unix => exact parse_address_text _ _ b (hloop (key_rounds _) _ hover)
  | tcp => exact parse_address_text _ _ b (hloop (key_rounds _) _ hover)
  | unixexec => exact parse_address_text _ _ b (hloop exec_rounds _ hover)
  | machine_unix => exact parse_address_text _ _ b (hloop (key_rounds _) _ hover)

/-- A loop that runs over the end is in the next address. -/
theorem parse_transport_over (t : Transport) (b : Bus) (hu : 0x3b ∉ u)
    (hover : text_runs_over t u = true) :
    (parse_transport getaddrinfo t (u ++ 0x3b :: s) b).1.length ≤ s.length := by
  have hloop : ∀ {V : Type} {round : V → List UInt8 → List UInt8 × Outcome V} {known}
      (_ : Rounds round known) (v : V), runs_over round known v (parts u) = true →
      (address_loop round (u ++ 0x3b :: s).length v (u ++ 0x3b :: s)).1.length ≤ s.length := by
    intro V round known hr v hover
    have hlen : ([0x2c].intercalate (parts u)).length ≤ (u ++ 0x3b :: s).length := by
      rw [join_parts, length_append]
      exact le_add_right _ _
    have h := address_loop_over (s := s) hr (parts_plain hu) v hover hlen
    rwa [join_parts] at h
  have hparse : ∀ {V : Type} {r : List UInt8 × Outcome V} (guid : V → Option (List UInt8))
      (use : V → Call Bus PUnit), r.1.length ≤ s.length →
      (parse_address r guid use b).1.length ≤ s.length := by
    intro V r guid use h
    rw [parse_address_cursor]
    exact h
  cases t with
  | unix => exact hparse _ _ (hloop (key_rounds _) _ hover)
  | tcp => exact hparse _ _ (hloop (key_rounds _) _ hover)
  | unixexec => exact hparse _ _ (hloop exec_rounds _ hover)
  | machine_unix => exact hparse _ _ (hloop (key_rounds _) _ hover)

/-- What a call has done that parses an address as it is by itself. -/
structure Parses (t : Transport) (u rest s : List UInt8) (b : Bus) (o : Outcome Parsed)
    (r : NextAddress) : Prop where
  address : r.address = some (t, u ++ rest)
  within : rest.length ≤ r.cursor.length
  result : match o with
    | .err e => r.ret = .err e
    | .abort => r.ret = .abort
    | .ok x => r.ret = .ok true ∧ r.cursor = rest ∧
        ∃ c c', r.bus = set_address_index s rest c ∧ x = c'.parsed ∧
          Used (bus_reset_parsed_address b) (.fresh none) (gives .uid t u) (gives .gid t u) c c'

/-- A call that finds an address parses it as it is by itself, unless its loop
    runs over the end. -/
theorem call_text (hs : b.address = some s) (ha : s.drop b.address_index ≠ [])
    (hfind : find_address (s.drop b.address_index).length (s.drop b.address_index) =
      .address t (u ++ rest))
    (hu : 0x3b ∉ u) (hrest : at_end rest = true) (hover : rest = [] ∨ text_runs_over t u = false)
    (htext : transport_at text = some (t, u)) : ∃ o, attempt getaddrinfo text = some o ∧
      Parses t u rest s b o (bus_parse_next_address getaddrinfo b) := by
  obtain ⟨q, hq, hparse, hend⟩ :=
    parse_transport_text getaddrinfo t (bus_reset_parsed_address b) hu hrest hover
  obtain ⟨hsame, hok⟩ := use_text_twice getaddrinfo (reset_underway b) t u
  have hwithin : rest.length ≤ (q ++ rest).length := by
    rw [length_append]
    exact le_add_left _ _
  unfold bus_parse_next_address
  rw [hs]
  dsimp only
  rw [if_neg ha, hfind]
  dsimp only
  rw [hparse]
  unfold attempt
  rw [htext]
  dsimp only
  rcases hr' : use_text getaddrinfo t u (.fresh none) with ⟨o', c'⟩
  rcases hr : use_text getaddrinfo t u (bus_reset_parsed_address b) with ⟨guid | e | _, c⟩
  · rw [hr, hr'] at hsame hok
    rw [hr] at hend
    cases hsame
    obtain rfl := hend guid rfl
    have hused := hok guid rfl
    rcases use_guid_twice hused guid with ⟨d, d', hd, hd', hboth⟩ | ⟨e, hd, hd'⟩ | ⟨hd, hd'⟩
    · refine ⟨.ok d'.parsed, ?_, ?_⟩
      · simp [hd']
      · dsimp only
        rw [hd]
        exact ⟨rfl, hwithin, rfl, rfl, d, d', rfl, rfl, hboth⟩
    · refine ⟨.err e, ?_, ?_⟩
      · simp [hd']
      · dsimp only
        rw [hd]
        exact ⟨rfl, hwithin, rfl⟩
    · refine ⟨.abort, ?_, ?_⟩
      · simp [hd']
      · dsimp only
        rw [hd]
        exact ⟨rfl, hwithin, rfl⟩
  · rw [hr, hr'] at hsame
    cases hsame
    exact ⟨_, rfl, rfl, hwithin, rfl⟩
  · rw [hr, hr'] at hsame
    cases hsame
    exact ⟨_, rfl, rfl, hwithin, rfl⟩

/-- A call whose loop runs over the end of the address does not keep to it. -/
theorem call_over (hs : b.address = some s) (ha : s.drop b.address_index ≠ []) {x : List UInt8}
    (hfind : find_address (s.drop b.address_index).length (s.drop b.address_index) =
      .address t (u ++ 0x3b :: x)) (hu : 0x3b ∉ u) (hover : text_runs_over t u = true) :
    (bus_parse_next_address getaddrinfo b).address = some (t, u ++ 0x3b :: x) ∧
      (bus_parse_next_address getaddrinfo b).cursor.length ≤ x.length := by
  have hlen := parse_transport_over (s := x) getaddrinfo t (bus_reset_parsed_address b) hu hover
  unfold bus_parse_next_address
  rw [hs]
  dsimp only
  rw [if_neg ha, hfind]
  dsimp only
  match hr : parse_transport getaddrinfo t (u ++ 0x3b :: x) (bus_reset_parsed_address b) with
  | (a, .err e, c) =>
    rw [hr] at hlen
    exact ⟨rfl, hlen⟩
  | (a, .abort, c) =>
    rw [hr] at hlen
    exact ⟨rfl, hlen⟩
  | (a, .ok guid, c) =>
    rw [hr] at hlen
    dsimp only
    cases use_guid guid c with
    | ok d => exact ⟨rfl, hlen⟩
    | err e => exact ⟨rfl, hlen⟩
    | abort => exact ⟨rfl, hlen⟩

end call

/-! ## Section 7: The addresses of a list -/

section list
variable {t : Transport} {u text s : List UInt8} {texts : List (List UInt8)}

/-- What is behind an address. -/
def behind (texts : List (List UInt8)) : List UInt8 :=
  if texts = [] then [] else 0x3b :: [0x3b].intercalate texts

theorem join_behind (text : List UInt8) (texts : List (List UInt8)) :
    [0x3b].intercalate (text :: texts) = text ++ behind texts := by
  unfold behind
  split
  · next h =>
    subst h
    simp
  · next h =>
    rw [intercalate_cons_of_ne_nil h]
    simp

theorem behind_at_end (texts : List (List UInt8)) : at_end (behind texts) = true := by
  unfold behind
  split
  · rfl
  · rfl

/-- The transport is found by the text of the address. -/
theorem transport_at_append (text : List UInt8) (texts : List (List UInt8)) :
    transport_at (text ++ behind texts) =
      (transport_at text).map fun (t, u) => (t, u ++ behind texts) := by
  have hends := (ends_of_at_end (behind_at_end texts)).1
  have hone : ∀ t : Transport, (startswith (text ++ behind texts) t.name).map (fun p => (t, p)) =
      ((startswith text t.name).map fun p => (t, p)).map fun (t, u) => (t, u ++ behind texts) := by
    intro t
    have hname : Plain t.name := by
      cases t <;> exact plain_of_all (by decide)
    unfold startswith memory_startswith
    rw [isPrefixOf_append hname hends]
    split
    · next h =>
      rw [drop_append_of_le_length (List.isPrefixOf_iff_prefix.mp h).length_le]
      rfl
    · rfl
  unfold transport_at
  simp only [findSome?_cons, hone]
  cases (startswith text Transport.unix.name).map fun p => (Transport.unix, p) with
  | some r => rfl
  | none =>
    cases (startswith text Transport.tcp.name).map fun p => (Transport.tcp, p) with
    | some r => rfl
    | none =>
      cases (startswith text Transport.unixexec.name).map fun p => (Transport.unixexec, p) with
      | some r => rfl
      | none =>
        cases (startswith text Transport.machine_unix.name).map
          fun p => (Transport.machine_unix, p) with
        | some r => rfl
        | none => rfl

theorem transport_at_suffix (h : transport_at text = some (t, u)) : u <:+ text := by
  obtain ⟨t', -, ht'⟩ := exists_of_findSome?_eq_some h
  obtain ⟨p, hp, heq⟩ := Option.map_eq_some_iff.mp ht'
  cases heq
  unfold startswith memory_startswith at hp
  split at hp
  · cases hp
    exact drop_suffix _ _
  · cases hp

/-- Where the first address of a known transport is. -/
def first_address : List (List UInt8) → Found
  | [] => .finished
  | text :: texts =>
    match transport_at text with
    | some (t, u) => .address t (u ++ behind texts)
    | none =>
      if texts = [] then if text = [] then .finished else .missing
      else first_address texts

theorem find_address_join {fuel : Nat} (hplain : ∀ text ∈ texts, 0x3b ∉ text) (hne : texts ≠ [])
    (hfuel : ([0x3b].intercalate texts).length ≤ fuel) :
    find_address fuel ([0x3b].intercalate texts) = first_address texts := by
  induction texts generalizing fuel with
  | nil => exact absurd rfl hne
  | cons text texts ih =>
    obtain ⟨htext, htexts⟩ := forall_mem_cons.mp hplain
    have htransport := transport_at_append text texts
    rw [join_behind] at hfuel ⊢
    rw [first_address]
    -- what comes after the separator
    have hnext : ∀ {f : Nat}, texts ≠ [] → (behind texts).length ≤ f →
        find_address f (behind texts) = first_address texts := by
      intro f hmore hlen
      unfold behind at hlen ⊢
      rw [if_neg hmore] at hlen ⊢
      obtain ⟨f, rfl⟩ : ∃ m, f = m + 1 := ⟨f - 1, by rw [length_cons] at hlen; omega⟩
      exact ih htexts hmore (le_of_succ_le_succ hlen)
    cases text with
    | nil =>
      have hnone : transport_at [] = none := by decide
      rw [hnone]
      dsimp only
      split
      · next h =>
        subst h
        unfold find_address
        rfl
      · next h => exact hnext h hfuel
    | cons c text =>
      have hc : c ≠ 0x3b := fun heq => htext (heq ▸ mem_cons_self)
      rw [cons_append] at hfuel htransport ⊢
      obtain ⟨fuel, rfl⟩ : ∃ m, fuel = m + 1 := ⟨fuel - 1, by rw [length_cons] at hfuel; omega⟩
      rw [find_address, if_neg hc, htransport]
      cases transport_at (c :: text) with
      | some r => rfl
      | none =>
        have hdrop : (text ++ behind texts).dropWhile (· ≠ 0x3b) = behind texts := by
          have hall : ∀ d ∈ text, (decide (d ≠ 0x3b)) = true := by
            intro d hd
            have : d ≠ 0x3b := fun heq => htext (heq ▸ mem_cons_of_mem _ hd)
            simpa using this
          rw [dropWhile_append_of_pos hall]
          unfold behind
          split
          · rfl
          · rfl
        simp only [Option.map_none, hdrop, if_false]
        by_cases hmore : texts = []
        · subst hmore
          rfl
        · rw [if_neg hmore, ← hnext hmore (f := fuel)]
          · unfold behind
            rw [if_neg hmore]
          · simp only [length_cons, length_append] at hfuel
            omega

/-- The same from the separator in front of the list. -/
theorem find_address_behind {fuel : Nat} (hplain : ∀ text ∈ texts, 0x3b ∉ text) (hne : texts ≠ [])
    (hfuel : (behind texts).length ≤ fuel) :
    find_address fuel (behind texts) = first_address texts := by
  unfold behind at hfuel ⊢
  rw [if_neg hne] at hfuel ⊢
  obtain ⟨fuel, rfl⟩ : ∃ m, fuel = m + 1 := ⟨fuel - 1, by rw [length_cons] at hfuel; omega⟩
  exact find_address_join hplain hne (le_of_succ_le_succ hfuel)

end list

/-! ## Section 8: One call after the other -/

section run
variable {b c c' : Bus} {t : Transport} {u text s rest : List UInt8}
  {texts : List (List UInt8)} {r : NextAddress}

/-- The bus goes on where the cursor is, as long as that fits an `unsigned`. -/
theorem goes_on_iff (h : rest <:+ s) :
    s.drop ((s.length - rest.length) % 2 ^ 32) = rest ↔ s.length - rest.length < 2 ^ 32 := by
  constructor
  · intro hdrop
    by_contra hlarge
    have hlen := congrArg length hdrop
    rw [length_drop] at hlen
    omega
  · intro hsmall
    rw [mod_eq_of_lt hsmall]
    exact (suffix_iff_eq_drop.mp h).symm

section
variable (hs : b.address = some s)
include hs

/-- A call with nothing left. -/
theorem call_end (ha : s.drop b.address_index = []) :
    bus_parse_next_address getaddrinfo b = ⟨none, [], .ok false, b⟩ := by
  unfold bus_parse_next_address
  rw [hs]
  dsimp only
  rw [if_pos ha, ha]

variable {n : Nat}

/-- The calls from then on: there is nothing to try. -/
theorem next_addresses_end (ha : s.drop b.address_index = []) (hn : 0 < n) :
    (next_addresses getaddrinfo n b).filterMap NextAddress.tries = [] ∧
      ∀ r ∈ next_addresses getaddrinfo n b, r.Apart s := by
  obtain ⟨n, rfl⟩ : ∃ m, n = m + 1 := ⟨n - 1, by omega⟩
  rw [next_addresses, call_end getaddrinfo hs ha]
  refine ⟨rfl, ?_⟩
  intro r hr
  obtain rfl := mem_singleton.mp hr
  exact ⟨nofun, nofun⟩

/-- A call that comes to a last address of an unknown transport. -/
theorem call_missing (ha : s.drop b.address_index ≠ [])
    (hfind : find_address (s.drop b.address_index).length (s.drop b.address_index) = .missing) :
    bus_parse_next_address getaddrinfo b =
      ⟨none, s.drop b.address_index, .ok false, bus_reset_parsed_address b⟩ := by
  unfold bus_parse_next_address
  rw [hs]
  dsimp only
  rw [if_neg ha, hfind]

/-- A call that comes to the end of the list. -/
theorem call_finished (ha : s.drop b.address_index ≠ [])
    (hfind : find_address (s.drop b.address_index).length (s.drop b.address_index) = .finished) :
    bus_parse_next_address getaddrinfo b =
      ⟨none, [], .ok true, set_address_index s [] (bus_reset_parsed_address b)⟩ := by
  unfold bus_parse_next_address
  rw [hs]
  dsimp only
  rw [if_neg ha, hfind]

end

/-- What is parsed is what the address stands for, unless there is a user or a
    group left of an earlier one. -/
theorem parsed_iff {uid gid : Bool}
    (h : Used (bus_reset_parsed_address b) (.fresh none) uid gid c c') : c.parsed = c'.parsed ↔
      (b.connect_as_uid ≠ UID_INVALID → uid = true) ∧
        (b.connect_as_gid ≠ UID_INVALID → gid = true) := by
  have hone : ∀ {given : Bool} {left x x' : Nat},
      (if given then x = x' ∧ x' ≠ UID_INVALID else x = left ∧ x' = UID_INVALID) →
        (x = x' ↔ (left ≠ UID_INVALID → given = true)) := by
    intro given left x x' hx
    cases given with
    | true => exact ⟨fun _ _ => rfl, fun _ => hx.1⟩
    | false =>
      obtain ⟨rfl, rfl⟩ := hx
      simp
  have huid : c.connect_as_uid = c'.connect_as_uid ↔
      (b.connect_as_uid ≠ UID_INVALID → uid = true) := hone h.uid
  have hgid : c.connect_as_gid = c'.connect_as_gid ↔
      (b.connect_as_gid ≠ UID_INVALID → gid = true) := hone h.gid
  rw [← huid, ← hgid]
  unfold Bus.parsed
  simp [h.sockaddr, h.sockaddr_size, h.exec_path, h.exec_argv, h.server_id, h.machine, h.nspid,
    h.is_local]

/-- Whether there is a user or a group to connect as, after an address. -/
theorem left_of {given : Bool} {left x x' : Nat}
    (h : if given then x = x' ∧ x' ≠ UID_INVALID else x = left ∧ x' = UID_INVALID)
    (hleft : left ≠ UID_INVALID → given = true) : decide (x ≠ UID_INVALID) = given := by
  cases given with
  | true =>
    obtain ⟨rfl, hx⟩ := h
    exact decide_eq_true hx
  | false =>
    obtain ⟨rfl, -⟩ := h
    exact decide_eq_false fun hx => nomatch hleft hx

/-- The cursor is not behind the end of the address. -/
theorem within_of (hu : 0x3b ∉ u) (haddress : r.address = some (t, u ++ behind texts))
    (hcursor : (behind texts).length ≤ r.cursor.length) :
    ∀ t' p, r.address = some (t', p) → (p.dropWhile (· ≠ 0x3b)).length ≤ r.cursor.length := by
  intro t' p hp
  rw [haddress] at hp
  cases hp
  have hall : ∀ d ∈ u, (decide (d ≠ 0x3b)) = true := by
    intro d hd
    have : d ≠ 0x3b := fun heq => hu (heq ▸ hd)
    simpa using this
  rw [dropWhile_append_of_pos hall]
  exact (dropWhile_suffix _).length_le.trans hcursor

/-- The bus is in front of these addresses, the first of which is at `pos`. -/
structure Before (s : List UInt8) (pos : Nat) (texts : List (List UInt8)) (b : Bus) : Prop where
  address : b.address = some s
  plain : ∀ text ∈ texts, 0x3b ∉ text
  place : ∃ front, front.length = pos ∧ s = front ++ [0x3b].intercalate texts
  more : s.drop b.address_index ≠ []
  found : find_address (s.drop b.address_index).length (s.drop b.address_index) =
    first_address texts

variable {pos : Nat}

section
variable (h : Before s pos (text :: texts) b)
include h

theorem Before.plain_text (ht : transport_at text = some (t, u)) : 0x3b ∉ u := fun hmem =>
  h.plain text mem_cons_self ((transport_at_suffix ht).subset hmem)

/-- Over an address that is skipped. -/
theorem Before.skip (hne : texts ≠ []) (hnone : transport_at text = none) :
    Before s (pos + text.length + 1) texts b := by
  obtain ⟨front, hlen, hs⟩ := h.place
  refine ⟨h.address, fun x hx => h.plain x (mem_cons_of_mem _ hx), ?_, h.more, ?_⟩
  · refine ⟨front ++ text ++ [0x3b], by simp [hlen, add_assoc], ?_⟩
    rw [hs, join_behind, behind, if_neg hne]
    simp
  · rw [h.found, first_address, hnone]
    exact if_neg hne

/-- Over an address that is parsed. -/
theorem Before.parse (hne : texts ≠ []) (haddress : c.address = some s)
    (hgo : s.drop c.address_index = behind texts) : Before s (pos + text.length + 1) texts c := by
  obtain ⟨front, hlen, hs⟩ := h.place
  have hplain : ∀ x ∈ texts, 0x3b ∉ x := fun x hx => h.plain x (mem_cons_of_mem _ hx)
  refine ⟨haddress, hplain, ?_, ?_, ?_⟩
  · refine ⟨front ++ text ++ [0x3b], by simp [hlen, add_assoc], ?_⟩
    rw [hs, join_behind, behind, if_neg hne]
    simp
  · rw [hgo, behind, if_neg hne]
    simp
  · rw [hgo]
    exact find_address_behind hplain hne (le_refl _)

end

/-- The end of a list, behind the last separator. -/
theorem in_turn_finished (h : Before s pos [[]] b) (hn : 1 < n) :
    InTurn getaddrinfo s n b [[]] ↔ pos < 2 ^ 32 := by
  obtain ⟨front, hlen, hs⟩ := h.place
  have hpos : s.length = pos := by
    rw [hs, ← hlen]
    simp
  have hgo := goes_on_iff (nil_suffix (l := s))
  rw [length_nil, Nat.sub_zero, hpos] at hgo
  have hcall := call_finished getaddrinfo h.address h.more h.found
  have hindex : (set_address_index s [] (bus_reset_parsed_address b)).address_index =
      pos % 2 ^ 32 := by
    rw [← hpos]
    rfl
  obtain ⟨n, rfl⟩ : ∃ m, n = m + 1 := ⟨n - 1, by omega⟩
  unfold InTurn
  rw [next_addresses, hcall]
  constructor
  · rintro ⟨-, hapart⟩
    have h0 := (hapart _ mem_cons_self).goes_on rfl
    rw [hindex] at h0
    exact hgo.mp h0
  · intro hsmall
    have hend := hgo.mpr hsmall
    rw [← hindex] at hend
    obtain ⟨htries, hapart⟩ := next_addresses_end getaddrinfo
      (b := set_address_index s [] (bus_reset_parsed_address b)) h.address hend
      (lt_of_succ_lt_succ hn)
    refine ⟨?_, ?_⟩
    · rw [filterMap_cons_none rfl, htries]
      rfl
    · intro r hr
      rcases mem_cons.mp hr with rfl | hr
      · exact ⟨nofun, fun _ => hend⟩
      · exact hapart r hr

/-- A last address of an unknown transport. -/
theorem in_turn_missing (h : Before s pos [text] b) (hnone : transport_at text = none)
    (htext : text ≠ []) (hn : 0 < n) : InTurn getaddrinfo s n b [text] := by
  have hfind : find_address (s.drop b.address_index).length (s.drop b.address_index) =
      .missing := by
    rw [h.found, first_address, hnone]
    simp [htext]
  obtain ⟨n, rfl⟩ : ∃ m, n = m + 1 := ⟨n - 1, by omega⟩
  unfold InTurn
  rw [next_addresses, call_missing getaddrinfo h.address h.more hfind]
  refine ⟨?_, ?_⟩
  · have hattempt : attempt getaddrinfo text = none := by
      unfold attempt
      rw [hnone]
    rw [attempts, hattempt]
    rfl
  · intro r hr
    obtain rfl := mem_singleton.mp hr
    exact ⟨nofun, nofun⟩

section
variable (h : Before s pos (text :: texts) b)
include h

/-- An address whose loop runs over the end. -/
theorem in_turn_over (ht : transport_at text = some (t, u)) (hne : texts ≠ [])
    (hover : text_runs_over t u = true) (hn : 0 < n) :
    ¬ InTurn getaddrinfo s n b (text :: texts) := by
  rintro ⟨-, hapart⟩
  have hu := h.plain_text ht
  have hfind : find_address (s.drop b.address_index).length (s.drop b.address_index) =
      .address t (u ++ 0x3b :: [0x3b].intercalate texts) := by
    rw [h.found, first_address, ht]
    rw [behind, if_neg hne]
  obtain ⟨haddress, hcursor⟩ := call_over getaddrinfo h.address h.more hfind hu hover
  obtain ⟨n, rfl⟩ : ∃ m, n = m + 1 := ⟨n - 1, by omega⟩
  have hfirst : bus_parse_next_address getaddrinfo b ∈ next_addresses getaddrinfo (n + 1) b := by
    rw [next_addresses]
    split
    · exact mem_cons_self
    · exact mem_singleton_self _
  have hwithin := (hapart _ hfirst).within _ _ haddress
  have hall : ∀ d ∈ u, (decide (d ≠ 0x3b)) = true := by
    intro d hd
    have : d ≠ 0x3b := fun heq => hu (heq ▸ hd)
    simpa using this
  rw [dropWhile_append_of_pos hall, dropWhile_cons, if_neg (by simp),
    length_cons] at hwithin
  omega

/-- An address that is not accepted. -/
theorem in_turn_failed {o : Outcome Parsed} (ht : transport_at text = some (t, u))
    (ho : attempt getaddrinfo text = some o) (hfail : ∀ x, o ≠ .ok x)
    (hp : Parses t u (behind texts) s b o (bus_parse_next_address getaddrinfo b)) (hn : 0 < n) :
    InTurn getaddrinfo s n b (text :: texts) := by
  have hu := h.plain_text ht
  have hwithin := within_of hu hp.address hp.within
  have hresult := hp.result
  obtain ⟨n, rfl⟩ : ∃ m, n = m + 1 := ⟨n - 1, by omega⟩
  unfold InTurn
  rw [next_addresses, attempts, ho]
  cases o with
  | ok x => exact absurd rfl (hfail x)
  | err e =>
    rw [hresult]
    refine ⟨by simp [NextAddress.tries, hresult], ?_⟩
    intro r hr
    obtain rfl := mem_singleton.mp hr
    exact ⟨hwithin, fun hok => by rw [hresult] at hok; cases hok⟩
  | abort =>
    rw [hresult]
    refine ⟨by simp [NextAddress.tries, hresult], ?_⟩
    intro r hr
    obtain rfl := mem_singleton.mp hr
    exact ⟨hwithin, fun hok => by rw [hresult] at hok; cases hok⟩

variable {x : Parsed}

/-- After an address that is accepted the bus goes on behind it. -/
theorem Parses.goes_on_iff (hp : Parses t u (behind texts) s b (.ok x) r) :
    s.drop r.bus.address_index = behind texts ↔ pos + text.length < 2 ^ 32 := by
  obtain ⟨-, -, c, c', hbus, -, -⟩ := hp.result
  obtain ⟨front, hlen, hs⟩ := h.place
  have hsuffix : behind texts <:+ s := by
    rw [hs, join_behind, ← append_assoc]
    exact suffix_append _ _
  have hplace : s.length - (behind texts).length = pos + text.length := by
    rw [hs, join_behind]
    simp only [length_append]
    omega
  rw [← hplace, ← Address.goes_on_iff hsuffix, hbus]
  rfl

/-- An address that is accepted: the others have to follow. -/
theorem in_turn_accepted (ht : transport_at text = some (t, u))
    (ho : attempt getaddrinfo text = some (.ok x))
    (hp : Parses t u (behind texts) s b (.ok x) (bus_parse_next_address getaddrinfo b)) :
    InTurn getaddrinfo s (n + 1) b (text :: texts) ↔ pos + text.length < 2 ^ 32 ∧
        (b.connect_as_uid ≠ UID_INVALID → gives .uid t u = true) ∧
        (b.connect_as_gid ≠ UID_INVALID → gives .gid t u = true) ∧
        InTurn getaddrinfo s n (bus_parse_next_address getaddrinfo b).bus texts := by
  have hwithin := within_of (h.plain_text ht) hp.address hp.within
  have hgo := hp.goes_on_iff h
  obtain ⟨hret, hcursor, c, c', hbus, rfl, hused⟩ := hp.result
  have hparsed := parsed_iff hused
  have htries : (bus_parse_next_address getaddrinfo b).tries = some (.ok c.parsed) := by
    unfold NextAddress.tries
    rw [hret, hp.address, hbus]
    rfl
  unfold InTurn
  rw [next_addresses, attempts, ho]
  rw [hret]
  rw [filterMap_cons_some htries, cons_eq_cons, Outcome.ok.injEq, hparsed,
    forall_mem_cons, ← hgo]
  constructor
  · rintro ⟨⟨⟨huid, hgid⟩, hrest⟩, hfirst, hapart⟩
    have h0 := hfirst.goes_on hret
    rw [hcursor] at h0
    exact ⟨h0, huid, hgid, hrest, hapart⟩
  · rintro ⟨h0, huid, hgid, hrest, hapart⟩
    refine ⟨⟨⟨huid, hgid⟩, hrest⟩, ⟨hwithin, fun _ => ?_⟩, hapart⟩
    rw [hcursor]
    exact h0

/-- The others, after an address that is accepted. -/
theorem in_turn_rest
    (hp : Parses t u (behind texts) s b (.ok x) (bus_parse_next_address getaddrinfo b))
    (ih : ∀ {c : Bus} {pos n : Nat}, Before s pos texts c → texts ≠ [] → texts.length < n → (InTurn getaddrinfo s n c texts ↔ Harmless getaddrinfo pos (decide (c.connect_as_uid ≠ UID_INVALID)) (decide (c.connect_as_gid ≠ UID_INVALID)) texts))
    (hpos : pos + text.length < 2 ^ 32)
    (huid : b.connect_as_uid ≠ UID_INVALID → gives .uid t u = true)
    (hgid : b.connect_as_gid ≠ UID_INVALID → gives .gid t u = true) (hn : texts.length < n) :
    InTurn getaddrinfo s n (bus_parse_next_address getaddrinfo b).bus texts ↔
      Harmless getaddrinfo (pos + text.length + 1) (gives .uid t u) (gives .gid t u) texts := by
  have hgo := (hp.goes_on_iff h).mpr hpos
  obtain ⟨-, -, c, c', hbus, -, hused⟩ := hp.result
  rw [hbus] at hgo ⊢
  have haddress : (set_address_index s (behind texts) c).address = some s :=
    hused.address.trans h.address
  by_cases hlast : texts = []
  · subst hlast
    have hend := next_addresses_end getaddrinfo haddress hgo hn
    exact ⟨fun _ => trivial, fun _ => hend⟩
  · have hleft : decide (c.connect_as_uid ≠ UID_INVALID) = gives .uid t u := left_of hused.uid huid
    have hleft' : decide (c.connect_as_gid ≠ UID_INVALID) = gives .gid t u :=
      left_of hused.gid hgid
    rw [← hleft, ← hleft']
    exact ih (h.parse hlast haddress hgo) hlast hn

end

/-- The calls on a bus that is in front of these addresses try them in order
    when nothing is stumbled over, and only then. -/
theorem in_turn_iff (h : Before s pos texts b) (hne : texts ≠ []) (hn : texts.length < n) :
    InTurn getaddrinfo s n b texts ↔
      Harmless getaddrinfo pos (decide (b.connect_as_uid ≠ UID_INVALID))
        (decide (b.connect_as_gid ≠ UID_INVALID)) texts := by
  induction texts generalizing pos n b with
  | nil => exact absurd rfl hne
  | cons text texts ih =>
    obtain ⟨n, rfl⟩ : ∃ m, n = m + 1 := ⟨n - 1, by omega⟩
    unfold Harmless
    match ht : transport_at text with
    | none =>
      have hattempt : attempt getaddrinfo text = none := by
        unfold attempt
        rw [ht]
      by_cases hlast : texts = []
      · subst hlast
        unfold Harmless
        by_cases htext : text = []
        · subst htext
          rw [in_turn_finished getaddrinfo h hn]
          simp
        · simp [htext, in_turn_missing getaddrinfo h ht htext (succ_pos n)]
      · have hskip := ih (h.skip hlast ht) hlast (lt_of_succ_lt hn)
        have hsame : InTurn getaddrinfo s (n + 1) b (text :: texts) ↔
            InTurn getaddrinfo s (n + 1) b texts := by
          unfold InTurn
          rw [attempts, hattempt]
        rw [hsame, hskip]
        simp [hlast]
    | some (t, u) =>
      dsimp only
      by_cases hover : texts ≠ [] ∧ text_runs_over t u = true
      · constructor
        · intro hturn
          exact absurd hturn
            (in_turn_over getaddrinfo h ht hover.1 hover.2 (succ_pos n))
        · rintro ⟨hnot, -⟩
          rw [hnot hover.1] at hover
          exact absurd hover.2 (by simp)
      · have hends : behind texts = [] ∨ text_runs_over t u = false := by
          by_cases hlast : texts = []
          · exact .inl (if_pos hlast)
          · right
            simpa [hlast] using hover
        have hnot : texts ≠ [] → text_runs_over t u = false := by
          intro hmore
          simpa [hmore] using hover
        have hfind : find_address (s.drop b.address_index).length (s.drop b.address_index) =
            .address t (u ++ behind texts) := by
          rw [h.found, first_address, ht]
        obtain ⟨o, ho, hp⟩ := call_text getaddrinfo h.address h.more hfind (h.plain_text ht)
          (behind_at_end texts) hends ht
        rw [ho]
        match o with
        | .err e =>
          have hturn := in_turn_failed getaddrinfo h ht ho nofun hp (succ_pos n)
          exact ⟨fun _ => ⟨hnot, trivial⟩, fun _ => hturn⟩
        | .abort =>
          have hturn := in_turn_failed getaddrinfo h ht ho nofun hp (succ_pos n)
          exact ⟨fun _ => ⟨hnot, trivial⟩, fun _ => hturn⟩
        | .ok x =>
          rw [in_turn_accepted getaddrinfo h ht ho hp, and_iff_right hnot]
          simp only [decide_eq_true_eq]
          refine and_congr_right fun hpos => and_congr_right fun huid => and_congr_right fun hgid => ?_
          exact in_turn_rest getaddrinfo h hp ih hpos huid hgid (lt_of_succ_lt_succ hn)

end run

/-! ## Section 9: The list -/

theorem addresses_plain (s : List UInt8) : ∀ text ∈ addresses s, 0x3b ∉ text :=
  fun _ h => (mem_splitOn h).1

theorem before_addresses {s : List UInt8} (hs : s ≠ []) :
    Before s 0 (addresses s) (.fresh (some s)) where
  address := rfl
  plain := addresses_plain s
  place := ⟨[], rfl, (intercalate_splitOn _).symm⟩
  more := hs
  found := by
    have hjoin : [0x3b].intercalate (addresses s) = s := intercalate_splitOn _
    have hfind : ∀ {fuel : Nat}, s.length ≤ fuel →
        find_address fuel s = first_address (addresses s) := by
      intro fuel hfuel
      rw [← hjoin] at hfuel ⊢
      exact (find_address_join (addresses_plain s) (splitOn_ne_nil _ _) hfuel).trans
        (by rw [hjoin])
    exact hfind (le_refl _)

/-- The addresses of a list are tried in order, and what comes of each depends on
    its own text only, exactly when the list is harmless: no address that is
    parsed, but the last, ends in a key that the parser skips, none without a
    user or a group is right behind one with it, and those that are accepted end
    below 2^32. -/
theorem addresses_in_order_iff (getaddrinfo : Resolver) (s : List UInt8) :
    InOrder getaddrinfo s ↔ Harmless getaddrinfo 0 false false (addresses s) := by
  by_cases hs : s = []
  · subst hs
    refine ⟨fun _ => ⟨fun _ => by decide, trivial⟩, fun _ => ?_⟩
    intro n hn
    exact next_addresses_end getaddrinfo (b := .fresh (some [])) rfl rfl (zero_lt_of_lt hn)
  · have hbefore := before_addresses hs
    have hne : addresses s ≠ [] := splitOn_ne_nil _ _
    constructor
    · intro h
      exact (in_turn_iff getaddrinfo hbefore hne (lt_succ_self _)).mp (h _ (lt_succ_self _))
    · intro h n hn
      exact (in_turn_iff getaddrinfo hbefore hne hn).mpr h

/-- An unknown key at the end of the first address takes the second one with it. -/
theorem second_address_lost :
    ¬ InOrder (fun _ _ _ => .failed) (ascii "unix:path=/a,x=1;unix:path=/b") := by
  intro h
  have hcount := congrArg length (h 3 (by decide)).1
  revert hcount
  decide +kernel

end SdCompat.Address
