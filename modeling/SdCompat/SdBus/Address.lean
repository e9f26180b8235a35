import SdCompat.Basic.Call
import SdCompat.Basic.ParseValue
import SdCompat.SdBus.AddressKey

/-! # Bus addresses (sd-bus.c)

    `bus_parse_next_address` looks for the next address of a transport that it
    knows; each transport has a loop over its keys. All of them move one cursor,
    which is the rest of the string.
-/

namespace SdCompat.Address

open Call

/-! ## Section 1: The loops over keys -/

/-- The keys that there are variables for. -/
inductive Key where
  | guid | path | abstract | uid | gid | host | port | family | machine | pid
  deriving DecidableEq

def Key.name : Key → List UInt8
  | .guid => ascii "guid"
  | .path => ascii "path"
  | .abstract => ascii "abstract"
  | .uid => ascii "uid"
  | .gid => ascii "gid"
  | .host => ascii "host"
  | .port => ascii "port"
  | .family => ascii "family"
  | .machine => ascii "machine"
  | .pid => ascii "pid"

/-- The variables; `none` is NULL. -/
def Values : Type := Key → Option (List UInt8)

def Values.empty : Values := fun _ => none

def Values.set (v : Values) (key : Key) (value : List UInt8) : Values :=
  fun k => if k = key then some value else v k

/-- `skip_address_key` -/
def skip_address_key (p : List UInt8) : List UInt8 := after_comma (p.dropWhile (· ≠ 0x2c))

/-- The calls of `parse_address_key` in a loop, one after the other as long as
    they return 0. -/
def parse_keys (p : List UInt8) (v : Values) : List Key → Outcome (Option (Values × List UInt8))
  | [] => .ok none
  | key :: keys => do
    match ← parse_address_key p (some key.name) (v key) with
    | some (value, p) => .ok (some (v.set key value, p))
    | none => parse_keys p v keys

/-- The round of a loop that has only such keys. -/
def key_round (keys : List Key) (v : Values) (p : List UInt8) : List UInt8 × Outcome Values :=
  match parse_keys p v keys with
  | .ok (some (v, p)) => (p, .ok v)
  | .ok none => (skip_address_key p, .ok v)
  | .err e => (p, .err e)
  | .abort => (p, .abort)

/-- Whether the loops are at their end: `IN_SET(**p, 0, ';')`. -/
def at_end (p : List UInt8) : Bool := p.head?.all (· == 0x3b)

/-- A loop with the round that it has; the cursor and what was read. -/
def address_loop {V : Type} (round : V → List UInt8 → List UInt8 × Outcome V) :
    Nat → V → List UInt8 → List UInt8 × Outcome V
  | 0, v, p => (p, .ok v)
  | fuel + 1, v, p =>
    if at_end p then (p, .ok v)
    else
      match round v p with
      | (p, .ok v) => address_loop round fuel v p
      | (p, .err e) => (p, .err e)
      | (p, .abort) => (p, .abort)

/-- `strtoul(s, &s, 10)`: the number, unless it does not fit, and where it ends;
    where no number is, nothing is read and the number is 0. -/
def strtoul_argv (s : List UInt8) : Option Nat × List UInt8 :=
  let t := s.dropWhile isspace
  let t := if t.head? = some 0x2d || t.head? = some 0x2b then t.tail else t
  if t.takeWhile isdigit = [] then (some 0, s)
  else ((strtoul10 s).map Prod.fst, t.dropWhile isdigit)

/-- What `parse_exec_address` reads: `argv` and its size are the list. -/
structure ExecValues where
  values : Values
  argv : List (Option (List UInt8))

/-- `argv[ul] = value`, after `GREEDY_REALLOC0`. -/
def set_argv (argv : List (Option (List UInt8))) (ul : Nat) (value : List UInt8) :
    List (Option (List UInt8)) :=
  (argv ++ List.replicate (ul + 1 - argv.length) none).set ul (some value)

/-- The round of `parse_exec_address` where `argv` is at the cursor. The number
    is put in an `unsigned`. -/
def argv_round (v : ExecValues) (p : List UInt8) : List UInt8 × Outcome ExecValues :=
  match strtoul_argv p with
  | (some n, c :: p) =>
    let ul := n % 2 ^ 32
    if c ≠ 0x3d || ul > 256 then (c :: p, .err .EINVAL)
    else
      match parse_address_key p none none with
      | .ok (some (value, p)) => (p, .ok { v with argv := set_argv v.argv ul value })
      | .ok none => (p, .ok v)
      | .err e => (p, .err e)
      | .abort => (p, .abort)
  | (_, p) => (p, .err .EINVAL)

/-- The round of `parse_exec_address`. -/
def exec_round (v : ExecValues) (p : List UInt8) : List UInt8 × Outcome ExecValues :=
  match parse_keys p v.values [.guid, .path] with
  | .ok (some (values, p)) => (p, .ok { v with values })
  | .ok none =>
    match startswith p (ascii "argv") with
    | some p => argv_round v p
    | none => (skip_address_key p, .ok v)
  | .err e => (p, .err e)
  | .abort => (p, .abort)

/-! ## Section 2: The addresses -/

/-- `b->sockaddr`; what `getaddrinfo` found is the bytes of the address. -/
inductive Sockaddr where
  | unspec
  | un_path (sun_path : List UInt8)
  | un_abstract (name : List UInt8)
  | resolved (ai_addr : List UInt8)
  deriving DecidableEq

/-- `sd_bus`, as far as addresses go. -/
structure Bus where
  address : Option (List UInt8)
  address_index : Nat
  sockaddr : Sockaddr
  sockaddr_size : Nat
  exec_path : Option (List UInt8)
  exec_argv : Option (List (List UInt8))
  server_id : List UInt8
  machine : Option (List UInt8)
  nspid : Nat
  connect_as_uid : Nat
  connect_as_gid : Nat
  is_local : Bool

/-- How `getaddrinfo` ends: with an address, with `EAI_SYSTEM`, or otherwise. -/
inductive AddrInfo where
  | found (ai_addr : List UInt8)
  | system (errno : Errno)
  | failed

/-- The resolver: what `getaddrinfo` finds for a host, a port and a family. -/
abbrev Resolver : Type := List UInt8 → List UInt8 → AddressFamily → AddrInfo

/-- `sizeof(b->sockaddr.un.sun_path)` -/
def sizeof_sun_path : Nat := 108

/-- `offsetof(struct sockaddr_un, sun_path)` -/
def offsetof_sun_path : Nat := 2

variable (getaddrinfo : Resolver)

/-- The socket of `parse_unix_address`. -/
def use_unix_sockaddr (v : Values) : Call Bus PUnit :=
  match v .path, v .abstract with
  | none, none => Call.fail .EINVAL
  | some _, some _ => Call.fail .EINVAL
  | some path, none => do
    Call.check (path.length < sizeof_sun_path) .E2BIG
    Call.modify fun b => { b with sockaddr := .un_path path
                                  sockaddr_size := offsetof_sun_path + path.length + 1 }
  | none, some name => do
    Call.check (name.length < sizeof_sun_path - 1) .E2BIG
    Call.modify fun b => { b with sockaddr := .un_abstract name
                                  sockaddr_size := offsetof_sun_path + 1 + name.length }

/-- The user and the group of `parse_unix_address`. -/
def use_uid : Option (List UInt8) → Call Bus PUnit
  | none => pure ⟨⟩
  | some uids => do
    let uid ← lift (parse_uid_value uids)
    modify fun b => { b with connect_as_uid := uid }

def use_gid : Option (List UInt8) → Call Bus PUnit
  | none => pure ⟨⟩
  | some gids => do
    let gid ← lift (parse_gid_value gids)
    modify fun b => { b with connect_as_gid := gid }

/-- `parse_unix_address`, after its loop -/
def use_unix_address (v : Values) : Call Bus PUnit := do
  use_unix_sockaddr v
  use_uid (v .uid)
  use_gid (v .gid)
  modify fun b => { b with is_local := true }

/-- `parse_tcp_address`, after its loop -/
def use_tcp_address (v : Values) : Call Bus PUnit :=
  match v .host, v .port with
  | some host, some port => do
    let ai_family := (v .family).elim .unspec af_from_ipv4_ipv6
    Call.check ((v .family).isNone || ai_family ≠ .unspec) .EINVAL
    match getaddrinfo host port ai_family with
    | .system errno => Call.fail errno
    | .failed => Call.fail .EADDRNOTAVAIL
    | .found ai_addr =>
      Call.modify fun b => { b with sockaddr := .resolved ai_addr, sockaddr_size := ai_addr.length
                                    is_local := false }
  | _, _ => Call.fail .EINVAL

/-- `parse_exec_address`, after its loop: only `argv[0]` may be missing. -/
def use_exec_address (v : ExecValues) : Call Bus PUnit :=
  match v.values .path with
  | none => fail .EINVAL
  | some path => do
    check (v.argv.tail.all Option.isSome) .EINVAL
    modify fun b =>
      { b with exec_path := some path
               exec_argv := if v.argv = [] then none else some (v.argv.map (·.getD path))
               is_local := false }

/-- The machine and the process of `parse_container_unix_address`. -/
def use_machine : Option (List UInt8) → Call Bus PUnit
  | some machine => do
    check (hostname_is_valid machine) .EINVAL
    modify fun b => { b with machine := some machine }
  | none => modify fun b => { b with machine := none }

def use_nspid : Option (List UInt8) → Call Bus PUnit
  | some pid => do
    let nspid ← lift (parse_pid pid)
    modify fun b => { b with nspid := nspid }
  | none => modify fun b => { b with nspid := 0 }

/-- `parse_container_unix_address`, after its loop -/
def use_container_unix_address (v : Values) : Call Bus PUnit := do
  check ((v .machine).isSome ≠ (v .pid).isSome) .EINVAL
  use_machine (v .machine)
  use_nspid (v .pid)
  let sun_path := ascii "/var/run/dbus/system_bus_socket"
  modify fun b =>
    { b with sockaddr := .un_path sun_path
             sockaddr_size := offsetof_sun_path + sun_path.length + 1, is_local := false }

/-- A loop and what is done with its values: the cursor, the guid and the bus. -/
def parse_address {V : Type} (loop : List UInt8 × Outcome V) (guid : V → Option (List UInt8))
    (use : V → Call Bus PUnit) (b : Bus) : List UInt8 × Outcome (Option (List UInt8)) × Bus :=
  match loop with
  | (p, .err e) => (p, .err e, b)
  | (p, .abort) => (p, .abort, b)
  | (p, .ok v) =>
    match use v b with
    | (.err e, b) => (p, .err e, b)
    | (.abort, b) => (p, .abort, b)
    | (.ok _, b) => (p, .ok (guid v), b)

def unix_keys : List Key := [.guid, .path, .abstract, .uid, .gid]
def tcp_keys : List Key := [.guid, .host, .port, .family]
def container_keys : List Key := [.guid, .machine, .pid]

/-- `parse_unix_address` -/
def parse_unix_address (p : List UInt8) (b : Bus) :=
  parse_address (address_loop (key_round unix_keys) p.length .empty p) (· .guid)
    use_unix_address b

/-- `parse_tcp_address` -/
def parse_tcp_address (p : List UInt8) (b : Bus) :=
  parse_address (address_loop (key_round tcp_keys) p.length .empty p) (· .guid)
    (use_tcp_address getaddrinfo) b

/-- `parse_exec_address` -/
def parse_exec_address (p : List UInt8) (b : Bus) :=
  parse_address (address_loop exec_round p.length ⟨.empty, []⟩ p) (·.values .guid)
    use_exec_address b

/-- `parse_container_unix_address` -/
def parse_container_unix_address (p : List UInt8) (b : Bus) :=
  parse_address (address_loop (key_round container_keys) p.length .empty p) (· .guid)
    use_container_unix_address b

/-! ## Section 3: The next address -/

inductive Transport where
  | unix | tcp | unixexec | machine_unix
  deriving DecidableEq

def Transport.name : Transport → List UInt8
  | .unix => ascii "unix:"
  | .tcp => ascii "tcp:"
  | .unixexec => ascii "unixexec:"
  | .machine_unix => ascii "x-machine-unix:"

/-- The transport at the cursor, and the cursor after it. -/
def transport_at (a : List UInt8) : Option (Transport × List UInt8) :=
  [.unix, .tcp, .unixexec, .machine_unix].findSome? fun t : Transport =>
    (startswith a t.name).map fun p => (t, p)

/-- Where the loop of `bus_parse_next_address` leads: to the end, to an address,
    or to one of an unknown transport with none after it. -/
inductive Found where
  | finished
  | address (t : Transport) (p : List UInt8)
  | missing

/-- The loop of `bus_parse_next_address`, as far as an address. -/
def find_address : Nat → List UInt8 → Found
  | _, [] => .finished
  | 0, _ :: _ => .missing
  | fuel + 1, c :: a =>
    if c = 0x3b then find_address fuel a
    else
      match transport_at (c :: a) with
      | some (t, p) => .address t p
      | none =>
        match a.dropWhile (· ≠ 0x3b) with
        | [] => .missing
        | a => find_address fuel a

/-- `parse_*_address` -/
def parse_transport : Transport → List UInt8 → Bus →
    List UInt8 × Outcome (Option (List UInt8)) × Bus
  | .unix => parse_unix_address
  | .tcp => parse_tcp_address getaddrinfo
  | .unixexec => parse_exec_address
  | .machine_unix => parse_container_unix_address

/-- `bus_reset_parsed_address` -/
def bus_reset_parsed_address (b : Bus) : Bus :=
  { b with sockaddr := .unspec, sockaddr_size := 0, exec_argv := none, exec_path := none
           server_id := SD_ID128_NULL, machine := none, nspid := 0 }

/-- What a call of `bus_parse_next_address` does: the address that it parses, if
    it finds one, the cursor after that, and what it returns, 0 or 1 or an
    error. -/
structure NextAddress where
  address : Option (Transport × List UInt8)
  cursor : List UInt8
  ret : Outcome Bool
  bus : Bus

/-- `b->address_index = a - b->address`, an `unsigned`. -/
def set_address_index (address a : List UInt8) (b : Bus) : Bus :=
  { b with address_index := (address.length - a.length) % 2 ^ 32 }

/-- The end of `bus_parse_next_address`: the guid. -/
def use_guid (guid : Option (List UInt8)) (b : Bus) : Outcome Bus :=
  match guid with
  | none => .ok b
  | some guid => do
    let server_id ← sd_id128_from_string guid
    .ok { b with server_id := server_id }

/-- `bus_parse_next_address` -/
def bus_parse_next_address (b : Bus) : NextAddress :=
  match b.address with
  | none => ⟨none, [], .ok false, b⟩
  | some address =>
    let a := address.drop b.address_index
    if a = [] then ⟨none, a, .ok false, b⟩
    else
      let b := bus_reset_parsed_address b
      match find_address a.length a with
      | .missing => ⟨none, a, .ok false, b⟩
      | .finished => ⟨none, [], .ok true, set_address_index address [] b⟩
      | .address t p =>
        match parse_transport getaddrinfo t p b with
        | (a, .err e, b) => ⟨some (t, p), a, .err e, b⟩
        | (a, .abort, b) => ⟨some (t, p), a, .abort, b⟩
        | (a, .ok guid, b) =>
          match use_guid guid b with
          | .err e => ⟨some (t, p), a, .err e, b⟩
          | .abort => ⟨some (t, p), a, .abort, b⟩
          | .ok b => ⟨some (t, p), a, .ok true, set_address_index address a b⟩

end SdCompat.Address
