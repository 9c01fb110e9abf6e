/-
`TcpSender.cpp`: one TCP connection shared by every destination, and a cache of
resolved endpoints.

The socket and the network are a small model of Boost.Asio. A socket is closed,
open without a peer, or connected to an endpoint; the connections a sender opens
are numbered in order, so that two connections to one endpoint stay apart. What
the network answers to one call of `send` (what the resolver returns, whether the
peer has reset the connection since the last call, whether a new connection is
accepted, where the stream breaks) is an argument of the call, `Answers`: a theorem
about every sequence of answers is a theorem about every behaviour of the network.
What the sender does to the network is the list of `NetEvent`s a call returns, in
order.
-/
import CmsProxy.Interfaces
import CmsProxy.Decimal

set_option autoImplicit false

namespace CmsProxy.Tcp

open BigEndian (Bytes)
open Interfaces JsonValue Decimal

/-- `operator bool` of an error code. -/
def ErrorCode.failed (ec : ErrorCode) : Bool := ec.value != 0

/-- The error code of an operation that succeeded. -/
def ErrorCode.none : ErrorCode := { value := 0, category := .system }

section

variable {E : Type} [DecidableEq E]

/-! ## The socket and the network -/

/-- A socket; `E` is the type of endpoints. -/
inductive Socket (E : Type) where
  | closed
  /-- Open but not connected: `remote_endpoint()` throws. -/
  | unconnected
  /-- The `conn`-th connection opened so far, whose peer is `remote`. -/
  | connected (conn : ℕ) (remote : E)
  deriving DecidableEq

/-- How far a stream carries a packet. -/
inductive WriteAnswer where
  | complete
  /-- The connection takes `n` more bytes and then fails with `ec`. -/
  | breaksAfter (n : ℕ) (ec : ErrorCode)

/-- What the network answers to one call of `send`, or to the constructor. -/
structure Answers (E : Type) where
  resolve : ErrorCode × List E
  /-- The error `remote_endpoint()` throws on a connected socket, as it does once the
  peer has reset the connection; no error, and it returns the peer. -/
  remote_endpoint : ErrorCode
  connect : ErrorCode
  write : WriteAnswer

/-- Nothing fails, and `endpoint` is what the resolver finds. -/
def Answers.found (endpoint : E) : Answers E where
  resolve := (ErrorCode.none, [endpoint])
  remote_endpoint := ErrorCode.none
  connect := ErrorCode.none
  write := .complete

/-- What the sender does to the network. -/
inductive NetEvent (E : Type) where
  /-- `resolver.resolve(host, service)` gave `ec` and `results`. -/
  | resolve (host service : Bytes) (ec : ErrorCode) (results : List E)
  /-- `connect(endpoint)` was called on a socket in state `before` and gave `ec`. -/
  | connect (before : Socket E) (endpoint : E) (ec : ErrorCode)
  | close
  /-- `write` put `bytes` on the socket in state `on`. -/
  | write (on : Socket E) (bytes : Bytes)

/-- `TcpSender`, with the number of connections opened so far. -/
structure TcpSender (E : Type) where
  socket_ : Socket E := .closed
  endpoint_ : Option E := none
  endpoint_cache_ : List (Bytes × E) := []
  host_ : Bytes
  port_ : ℤ
  unicast_host_ : Bytes := []
  connections : ℕ := 0

/-- What a member function returns: a value, the sender after the call, and what
it did to the network. -/
abbrev Outcome (α E : Type) := α × TcpSender E × List (NetEvent E)

/-- `make_send_result_from_ec`; `message` is `ec.message()`. -/
def make_send_result_from_ec (message : ErrorCode → Bytes) (ec : ErrorCode) : SendResult where
  success := !ErrorCode.failed ec
  error_value := ec.value
  error_category := ec.category.name
  error_message := message ec

/-- `socket_.close()`. -/
def TcpSender.close (s : TcpSender E) : TcpSender E := { s with socket_ := .closed }

/-- `socket_.connect(endpoint, ec)`. It opens a closed socket, and leaves it open
when the connection fails. -/
def TcpSender.connectSocket (endpoint : E) (ec : ErrorCode) (s : TcpSender E) : TcpSender E :=
  if ErrorCode.failed ec then { s with socket_ := .unconnected }
  else { s with socket_ := .connected s.connections endpoint, connections := s.connections + 1 }

/-- `boost::asio::write`: the error code and the bytes put on the stream. There is
no error when, and only when, they are the whole packet. -/
def write (packet : Bytes) : WriteAnswer → ErrorCode × Bytes
  | .complete => (ErrorCode.none, packet)
  | .breaksAfter n ec =>
      if n < packet.length ∧ ErrorCode.failed ec then (ec, packet.take n)
      else (ErrorCode.none, packet)

/-! ## The sender -/

/-- The key of `endpoint_cache_`. -/
def cacheKey (target_host : Bytes) (target_port : UInt16) : Bytes :=
  target_host ++ str ":" ++ decimal target_port.toNat

/-- `resolve_target_endpoint`. The endpoint is there when the result is a success. -/
def TcpSender.resolve_target_endpoint (message : ErrorCode → Bytes) (target_host : Bytes)
    (target_port : UInt16) (answer : ErrorCode × List E) (s : TcpSender E) :
    Outcome (SendResult × Option E) E :=
  let key := cacheKey target_host target_port
  match s.endpoint_cache_.lookup key with
  | some endpoint => (({ success := true }, some endpoint), s, [])
  | none =>
      let (ec, results) := answer
      let events := [.resolve target_host (decimal target_port.toNat) ec results]
      if ErrorCode.failed ec then ((make_send_result_from_ec message ec, none), s, events)
      else
        match results with
        | [] =>
            (({ success := false, error_value := -1, error_category := str "resolver",
                error_message := str "Nessun endpoint valido trovato" }, none), s, events)
        | target_endpoint :: _ =>
            (({ success := true }, some target_endpoint),
              { s with endpoint_cache_ := (key, target_endpoint) :: s.endpoint_cache_ }, events)

/-- Step 2 of `send`: whether to reconnect, after closing a socket that is not
connected to the target, or whose `remote_endpoint()` throws. -/
def TcpSender.check_connection (target_endpoint : E) (remote_endpoint : ErrorCode)
    (s : TcpSender E) : Outcome Bool E :=
  match s.socket_ with
  | .closed => (true, s, [])
  | .unconnected => (true, s.close, [.close])
  | .connected _ current_endpoint =>
      -- the connection has been reset
      if ErrorCode.failed remote_endpoint then (true, s.close, [.close])
      else if current_endpoint ≠ target_endpoint then (true, s.close, [.close])
      else (false, s, [])

/-- Steps 3 and 4 of `send`: connect if needed, then write the packet once. -/
def TcpSender.deliver (message : ErrorCode → Bytes) (packet : Bytes) (target_endpoint : E)
    (need_reconnect : Bool) (answers : Answers E) (s : TcpSender E) : Outcome SendResult E :=
  let ec := if need_reconnect then answers.connect else ErrorCode.none
  let events :=
    if need_reconnect then [.connect s.socket_ target_endpoint answers.connect] else []
  let s := if need_reconnect then s.connectSocket target_endpoint answers.connect else s
  if ErrorCode.failed ec then (make_send_result_from_ec message ec, s, events)
  else
    let (ec, written) := write packet answers.write
    let events := events ++ [.write s.socket_ written]
    if ErrorCode.failed ec then
      (make_send_result_from_ec message ec, s.close, events ++ [.close])
    else ({ success := true }, s, events)

/-- `TcpSender::send`. -/
def TcpSender.send (message : ErrorCode → Bytes) (packet : RawPacket) (target_host : Bytes)
    (target_port : UInt16) (answers : Answers E) (s : TcpSender E) : Outcome SendResult E :=
  let ((resolve_result, target), s, resolving) :=
    s.resolve_target_endpoint message target_host target_port answers.resolve
  match target with
  | none => (resolve_result, s, resolving)
  | some target_endpoint =>
      let (need_reconnect, s, closing) :=
        s.check_connection target_endpoint answers.remote_endpoint
      let (result, s, delivering) :=
        s.deliver message packet.data target_endpoint need_reconnect answers
      (result, s, resolving ++ closing ++ delivering)

/-- `TcpSender::connect`, of the constructor. -/
def TcpSender.connect (endpoint : E) (ec : ErrorCode) (s : TcpSender E) :
    TcpSender E × List (NetEvent E) :=
  match s.socket_ with
  | .closed => (s.connectSocket endpoint ec, [.connect s.socket_ endpoint ec])
  | _ => (s.close.connectSocket endpoint ec, [.close, .connect s.close.socket_ endpoint ec])

/-- The constructor. `port` is an `int` and is cut to 16 bits for the resolver. -/
def construct (message : ErrorCode → Bytes) (host : Bytes) (port : ℤ) (answers : Answers E) :
    TcpSender E × List (NetEvent E) :=
  let s : TcpSender E := { host_ := host, port_ := port }
  let ((_, target), s, resolving) :=
    s.resolve_target_endpoint message host (UInt16.ofInt port) answers.resolve
  match target with
  | none => (s, resolving)
  | some initial_endpoint =>
      let s := { s with endpoint_ := some initial_endpoint }
      let (s, connecting) := s.connect initial_endpoint answers.connect
      (s, resolving ++ connecting)

/-- `set_unicast_target`. -/
def TcpSender.set_unicast_target (unicast_host : Bytes) (s : TcpSender E) : TcpSender E :=
  { s with unicast_host_ := unicast_host }

end

end CmsProxy.Tcp
