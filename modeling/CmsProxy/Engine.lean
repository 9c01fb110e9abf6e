/-
`ProxyEngine.cpp`: one datagram through converter, routing table, sender and
state store.

`processPacket` is a function from the state before a datagram to the state
after it and the list of what it did to the outside, in order: TCP sends with
their outcome, and ACK frames. The sender is any implementation of `ISender`,
with a state of its own, so a theorem about every sender is a theorem about
every sequence of outcomes. Logging is left out. `main` hands the engine a
system state and an ACK sender, so the tests for null pointers of the original
take their first branch.
-/
import CmsProxy.Converter
import CmsProxy.State

set_option autoImplicit false

namespace CmsProxy.Engine

open BigEndian (Bytes)
open Interfaces JsonValue Converter
open State (SystemState)

/-- What `processPacket` does to the outside. -/
inductive Effect where
  /-- `sender_->send(packet, host, port)` returned `result`. -/
  | send (packet : RawPacket) (host : Bytes) (port : UInt16) (result : SendResult)
  /-- `ack_sender_->send_ack(frame)`. -/
  | ack (frame : RawPacket)
  deriving DecidableEq

/-- The engine: what its constructor is given and never changes. -/
structure ProxyEngine (F S : Type) where
  rt : Runtime F
  sender_ : ISender S
  lrad_config_ : RoutingTable

/-- The objects behind the engine's pointers that a datagram can change. -/
structure EngineState (S : Type) where
  sender : S
  system_state_ : SystemState := {}

/-- `read_u32_be` of this file, which checks its range. -/
def read_u32_be (data : Bytes) (offset : ℕ) : UInt32 :=
  if data.length < offset + 4 then 0 else u32At data offset

/-- `extract_message_id_from_header`. -/
def extract_message_id_from_header (packet : RawPacket) : UInt32 := read_u32_be packet.data 0

section

variable {F : Type} [CFloat F]

/-- `get<uint32_t>()`; `none` where it throws `type_error.302`. -/
def get_uint32 : Json F → Option UInt32
  | .number_unsigned v => some (UInt32.ofNat v)
  | .number_integer v => some (UInt32.ofInt v)
  | .number_float f => some (UInt32.ofInt (CFloat.truncate f))
  | .boolean b => some (if b then 1 else 0)
  | _ => none

/-- `extract_action_id_from_payload`. Whatever throws is caught and gives 0. -/
def extract_action_id_from_payload (rt : Runtime F) (packet : RawPacket) : UInt32 :=
  match rt.parse packet.data with
  | none => 0
  | some j =>
      match j.find? (str "param") with
      | none => 0
      | some param =>
          match param.find? (str "action_id") with
          | none => 0
          | some v => (get_uint32 v).getD 0

/-- The result the engine makes up for an LRAD id that is not in the table. -/
def lrad_not_configured (asio : AsioErrors) : SendResult where
  success := false
  error_value := asio.invalid_argument
  error_category := str "engine"
  error_message := str "LRAD ID non configurato"

/-- Calling an `AckBuilderFunc`. -/
def call_ack_builder (builder : Option AckBuilderFunc) (action_id source_message_id : UInt32)
    (send_result : SendResult) : Except Fault RawPacket :=
  match builder with
  | some build => .ok (build action_id source_message_id send_result)
  | none => .error .badFunctionCall

variable {S : Type}

/-- The delivery of one packet: the outcome, the sender after it, and the send
itself when the LRAD is in the table. -/
def deliver (eng : ProxyEngine F S) (packetToSend : RawPacket) (sender : S) :
    SendResult × S × List Effect :=
  match eng.lrad_config_[packetToSend.destinationLradId]? with
  | some destination =>
      let (send_result, sender) :=
        eng.sender_.send packetToSend destination.ip_address destination.port sender
      (send_result, sender,
        [.send packetToSend destination.ip_address destination.port send_result])
  | none => (lrad_not_configured eng.rt.asio, sender, [])

/-- The loop over the packets: deliver, remember a failure, acknowledge. -/
def deliver_all (eng : ProxyEngine F S) (builder : Option AckBuilderFunc)
    (source_message_id : UInt32) :
    List RawPacket → S → Bool → Except Fault (S × Bool × List Effect)
  | [], sender, allSendsSucceeded => .ok (sender, allSendsSucceeded, [])
  | packetToSend :: packets, sender, allSendsSucceeded => do
      let (send_result, sender, sent) := deliver eng packetToSend sender
      let allSendsSucceeded := allSendsSucceeded && send_result.success
      let action_id := extract_action_id_from_payload eng.rt packetToSend
      let ack_packet ← call_ack_builder builder action_id source_message_id send_result
      let (sender, allSendsSucceeded, effects) ←
        deliver_all eng builder source_message_id packets sender allSendsSucceeded
      return (sender, allSendsSucceeded, sent ++ .ack ack_packet :: effects)

/-- `ProxyEngine::processPacket`, at the clock value `nowMs`. -/
def processPacket (eng : ProxyEngine F S) (nowMs : UInt64) (input : RawPacket)
    (st : EngineState S) : Except Fault (EngineState S × List Effect) := do
  let source_message_id := extract_message_id_from_header input
  let snapshot := st.system_state_.getSnapshot
  let result ← convert eng.rt input snapshot
  if result.packets.isEmpty then return (st, [])
  if result.ack_only then
    let ack_packet ← call_ack_builder result.ack_builder 0 source_message_id { success := true }
    return (st, [.ack ack_packet])
  let (sender, allSendsSucceeded, effects) ←
    deliver_all eng result.ack_builder source_message_id result.packets st.sender true
  let system_state_ :=
    if allSendsSucceeded && !result.state_updates.isEmpty then
      st.system_state_.applyBatch nowMs result.state_updates
    else st.system_state_
  return ({ sender := sender, system_state_ := system_state_ }, effects)

/-- One step of the delivery thread: a datagram and the clock in, effects out. -/
def Step (eng : ProxyEngine F S) (st : EngineState S) (input : UInt64 × RawPacket)
    (effects : List Effect) (st' : EngineState S) : Prop :=
  processPacket eng input.1 input.2 st = .ok (st', effects)

end

end CmsProxy.Engine
