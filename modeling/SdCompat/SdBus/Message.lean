import SdCompat.Basic.Call
import SdCompat.Basic.Utf8
import SdCompat.Lib.Bytes
import SdCompat.SdBus.Type

/-! # Messages (bus-message.h, bus-message.c)

    `sd_bus_message`: its header, its header fields and its body as the bytes
    they are, the stack of containers that are open for writing or entered
    for reading, and the read index.
-/

open Bytes

namespace SdCompat.Bus

/-- The byte order of the host the code runs on. -/
def BUS_NATIVE_ENDIAN : Endian := .little

/-- `BusMessageContainer`; `array_size` is the offset, in the body, of the
    length of the array. -/
structure BusMessageContainer where
  enclosing : UInt8
  signature : List UInt8
  index : Nat
  saved_index : Nat
  before : Nat
  begin : Nat
  end_ : Nat
  array_size : Option Nat
  deriving DecidableEq, Repr

/-- The root container of a new message. -/
def BusMessageContainer.root : BusMessageContainer := ⟨0, [], 0, 0, 0, 0, 0, none⟩

/-- `c->signature[c->index]`; `none` at its end, or when there is none. -/
def BusMessageContainer.current (c : BusMessageContainer) : Option UInt8 := c.signature[c.index]?

/-- `sd_bus_message`. `fields` are the header fields, `containers` the stack,
    the last container first. -/
structure SdBusMessage where
  endian : Endian
  type : UInt8
  flags : UInt8
  serial : Nat
  fields : List UInt8
  body : List UInt8
  path : Option (List UInt8)
  interface : Option (List UInt8)
  member : Option (List UInt8)
  destination : Option (List UInt8)
  sender : Option (List UInt8)
  error_name : Option (List UInt8)
  reply_cookie : Nat
  fds : List Int
  rindex : Nat
  root_container : BusMessageContainer
  containers : List BusMessageContainer
  sealed : Bool
  poisoned : Bool
  allow_fds : Bool
  deriving DecidableEq, Repr

namespace SdBusMessage

/-- `message_get_last_container` -/
def last_container (m : SdBusMessage) : BusMessageContainer :=
  m.containers.headD m.root_container

/-- Change the last container. -/
def update_last (f : BusMessageContainer → BusMessageContainer) (m : SdBusMessage) :
    SdBusMessage :=
  match m.containers with
  | [] => { m with root_container := f m.root_container }
  | c :: cs => { m with containers := f c :: cs }

end SdBusMessage

/-- The bit of `flags` for `BUS_MESSAGE_ALLOW_INTERACTIVE_AUTHORIZATION`. -/
def BUS_MESSAGE_ALLOW_INTERACTIVE_AUTHORIZATION : UInt8 := 4

/-- `sd_bus_message_new`, past its checks: `allow_fds` and `interactive` are
    what it takes from the bus. -/
def sd_bus_message_new (type : UInt8) (allow_fds interactive : Bool) : SdBusMessage where
  endian := BUS_NATIVE_ENDIAN
  type := type
  flags := if interactive then BUS_MESSAGE_ALLOW_INTERACTIVE_AUTHORIZATION else 0
  serial := 0
  fields := []
  body := []
  path := none
  interface := none
  member := none
  destination := none
  sender := none
  error_name := none
  reply_cookie := 0
  fds := []
  rindex := 0
  root_container := .root
  containers := []
  sealed := false
  poisoned := false
  allow_fds := allow_fds

end SdCompat.Bus
