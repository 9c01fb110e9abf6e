/-
What one datagram does to the outside.

`processPacket` delivers the packets of a datagram one after the other and
acknowledges each. The description here has no loop in it: an order's effects
(`answer`) are a function of its packet, its own outcome and the message id of
the datagram, and the effects of a datagram are the answers of its orders, one
after the other (`deliver_all_eq`). Everything said about answers elsewhere rests
on `processPacket_ok`, which lists what a datagram can do.

The second subject is the ACK frame as its receiver reads it: `decodeAck` takes
28 big-endian bytes apart, and undoes `build_ack_packet` (`decodeAck_build`).
-/
import CmsProxy.Orders
import CmsProxy.Engine
import CmsProxy.Runs

set_option autoImplicit false

namespace CmsProxy.Answers

open BigEndian Interfaces JsonValue Converter Orders Engine Runs

/-! ## The ACK frame -/

/-- The fields of an ACK frame. -/
structure Ack where
  message_id : UInt32
  message_length : UInt32
  action_id : UInt32
  source_message_id : UInt32
  ack_nack : UInt16
  nack_reason : UInt16
  deriving DecidableEq

/-- A frame of 28 bytes, taken apart. -/
def decodeAck (frame : RawPacket) : Option Ack :=
  if frame.data.length = 28 then
    some {
      message_id := u32At frame.data 0
      message_length := u32At frame.data 4
      action_id := u32At frame.data 16
      source_message_id := u32At frame.data 20
      ack_nack := u16At frame.data 24
      nack_reason := u16At frame.data 26 }
  else none

theorem u32_ofBytes_toBytes (v : UInt32) : UInt32.ofNat (ofBytes (toBytes 4 v.toNat)) = v := by
  have hlt : v.toNat < 256 ^ 4 := v.toNat_lt
  rw [ofBytes_toBytes, Nat.mod_eq_of_lt hlt, UInt32.ofNat_toNat]

theorem u16_ofBytes_toBytes (v : UInt16) : UInt16.ofNat (ofBytes (toBytes 2 v.toNat)) = v := by
  have hlt : v.toNat < 256 ^ 2 := v.toNat_lt
  rw [ofBytes_toBytes, Nat.mod_eq_of_lt hlt, UInt16.ofNat_toNat]

/-- **The frame says what it was built from.** -/
theorem decodeAck_build (asio : AsioErrors) (action_id source_message_id : UInt32)
    (sr : SendResult) :
    decodeAck (build_ack_packet asio action_id source_message_id sr) = some {
      message_id := 576879045
      message_length := 12
      action_id := action_id
      source_message_id := source_message_id
      ack_nack := if sr.success then AckAccepted else NackNotExecuted
      nack_reason := if sr.success then 0 else map_nack_reason asio sr } := by
  -- the `memcpy`s leave no gap, so each field is one of the words that were written
  have haction : u32At (build_ack_packet asio action_id source_message_id sr).data 16 = action_id :=
    u32_ofBytes_toBytes action_id
  have hsource : u32At (build_ack_packet asio action_id source_message_id sr).data 20
      = source_message_id := u32_ofBytes_toBytes source_message_id
  have hnack : u16At (build_ack_packet asio action_id source_message_id sr).data 24
      = if sr.success then AckAccepted else NackNotExecuted := u16_ofBytes_toBytes _
  have hreason : u16At (build_ack_packet asio action_id source_message_id sr).data 26
      = if sr.success then 0 else map_nack_reason asio sr := u16_ofBytes_toBytes _
  have hid : u32At (build_ack_packet asio action_id source_message_id sr).data 0 = 576879045 :=
    u32_ofBytes_toBytes 576879045
  have hlength : u32At (build_ack_packet asio action_id source_message_id sr).data 4 = 12 :=
    u32_ofBytes_toBytes 12
  have hsize : (build_ack_packet asio action_id source_message_id sr).data.length = 28 := rfl
  rw [decodeAck, if_pos hsize, haction, hsource, hnack, hreason, hid, hlength]

/-- The frame of an order that was delivered. -/
theorem decodeAck_accepted {asio : AsioErrors} {action_id source_message_id : UInt32}
    {sr : SendResult} (h : sr.success = true) :
    decodeAck (build_ack_packet asio action_id source_message_id sr) = some {
      message_id := 576879045
      message_length := 12
      action_id := action_id
      source_message_id := source_message_id
      ack_nack := 1
      nack_reason := 0 } := by
  rw [decodeAck_build]
  simp only [h, if_true, AckAccepted]

/-- The frame of an order that was not. -/
theorem decodeAck_refused {asio : AsioErrors} {action_id source_message_id : UInt32}
    {sr : SendResult} (h : sr.success = false) :
    decodeAck (build_ack_packet asio action_id source_message_id sr) = some {
      message_id := 576879045
      message_length := 12
      action_id := action_id
      source_message_id := source_message_id
      ack_nack := 2
      nack_reason := map_nack_reason asio sr } := by
  rw [decodeAck_build]
  simp only [h, Bool.false_eq_true, if_false, NackNotExecuted]

/-! ## Deliveries -/

section

variable {F S : Type}

/-- The send of a packet: none when its LRAD is not in the table. -/
def sendFor (eng : ProxyEngine F S) (packet : RawPacket) (outcome : SendResult) : List Effect :=
  match eng.lrad_config_[packet.destinationLradId]? with
  | some destination => [.send packet destination.ip_address destination.port outcome]
  | none => []

/-- The outcomes of a row of packets, delivered one after the other. -/
def outcomes (eng : ProxyEngine F S) : List RawPacket → S → List SendResult
  | [], _ => []
  | packet :: packets, sender =>
      (deliver eng packet sender).1 :: outcomes eng packets (deliver eng packet sender).2.1

/-- The sender after delivering them. -/
def senderAfter (eng : ProxyEngine F S) : List RawPacket → S → S
  | [], sender => sender
  | packet :: packets, sender => senderAfter eng packets (deliver eng packet sender).2.1

variable {eng : ProxyEngine F S}

/-- What a delivery does to the outside is the send of its packet. -/
theorem deliver_effects (packet : RawPacket) (sender : S) :
    (deliver eng packet sender).2.2 = sendFor eng packet (deliver eng packet sender).1 := by
  rw [deliver, sendFor]
  cases eng.lrad_config_[packet.destinationLradId]? <;> rfl

/-- A packet whose LRAD is not in the table has the outcome the engine makes up. -/
theorem deliver_unrouted {packet : RawPacket} (sender : S)
    (h : eng.lrad_config_[packet.destinationLradId]? = none) :
    (deliver eng packet sender).1 = lrad_not_configured eng.rt.asio := by
  rw [deliver, h]

theorem length_outcomes (packets : List RawPacket) (sender : S) :
    (outcomes eng packets sender).length = packets.length := by
  induction packets generalizing sender with
  | nil => rfl
  | cons packet packets ih => rw [outcomes, List.length_cons, List.length_cons, ih]

end

/-! ## Calls of the sender -/

/-- A call of `send`, with its packet, host and port. -/
abbrev SendCall := RawPacket × Bytes × UInt16

/-- The call behind an effect, if it is one, with the result it returned. -/
def sendOf : Effect → Option (SendCall × SendResult)
  | .send packet host port result => some ((packet, host, port), result)
  | .ack _ => none

/-- The calls among the effects. -/
def sendsOf (effects : List Effect) : List (SendCall × SendResult) := effects.filterMap sendOf

/-- One call: the result comes out. -/
def SenderStep {S : Type} (sender_ : ISender S) (sender : S) (call : SendCall)
    (result : SendResult) (sender' : S) : Prop :=
  sender_.send call.1 call.2.1 call.2.2 sender = (result, sender')

theorem sendsOf_append (effects effects' : List Effect) :
    sendsOf (effects ++ effects') = sendsOf effects ++ sendsOf effects' :=
  List.filterMap_append

/-- A delivery is one call, or none. -/
theorem sends_deliver {F S : Type} (eng : ProxyEngine F S) (packet : RawPacket) (sender : S) :
    Run (SenderStep eng.sender_) sender (sendsOf (deliver eng packet sender).2.2)
      (deliver eng packet sender).2.1 := by
  rw [deliver]
  cases eng.lrad_config_[packet.destinationLradId]? with
  | some destination => exact Run.single rfl
  | none => exact .nil

/-! ## The answer to one order -/

section

variable {F : Type} [CFloat F] {S : Type}

/-- The frame that acknowledges a packet with a given outcome. -/
def ackFor (eng : ProxyEngine F S) (source_message_id : UInt32) (packet : RawPacket)
    (outcome : SendResult) : RawPacket :=
  build_ack_packet eng.rt.asio (extract_action_id_from_payload eng.rt packet) source_message_id
    outcome

/-- Everything one order does to the outside. -/
def answer (eng : ProxyEngine F S) (source_message_id : UInt32) (packet : RawPacket)
    (outcome : SendResult) : List Effect :=
  sendFor eng packet outcome ++ [.ack (ackFor eng source_message_id packet outcome)]

/-- The answers to a row of packets. -/
def answers (eng : ProxyEngine F S) (source_message_id : UInt32) (packets : List RawPacket)
    (results : List SendResult) : List Effect :=
  (List.zipWith (answer eng source_message_id) packets results).flatten

variable {eng : ProxyEngine F S} {source_message_id : UInt32}

/-- The answers to the first packet come first. -/
theorem answers_cons (packet : RawPacket) (packets : List RawPacket) (result : SendResult)
    (results : List SendResult) :
    answers eng source_message_id (packet :: packets) (result :: results) =
      answer eng source_message_id packet result ++
        answers eng source_message_id packets results := by
  rw [answers, List.zipWith_cons_cons, List.flatten_cons, answers]

/-- The sends of a row of packets are the calls of the sender, one after the other. -/
theorem sends_answers (packets : List RawPacket) (sender : S) :
    Run (SenderStep eng.sender_) sender
      (sendsOf (answers eng source_message_id packets (outcomes eng packets sender)))
      (senderAfter eng packets sender) := by
  induction packets generalizing sender with
  | nil => exact .nil
  | cons packet packets ih =>
      have hsend := sends_deliver eng packet sender
      rw [deliver_effects] at hsend
      have hack : sendsOf [.ack (ackFor eng source_message_id packet (deliver eng packet sender).1)]
          = [] := rfl
      rw [outcomes, answers_cons, answer, sendsOf_append, sendsOf_append, hack, List.append_nil,
        senderAfter]
      exact hsend.append (ih _)

/-- **The loop.** With an ACK builder in place the loop over the packets returns;
its effects are the answers, and its flag says whether every outcome was a
success. -/
theorem deliver_all_eq (packets : List RawPacket) (sender : S) (allSendsSucceeded : Bool) :
    deliver_all eng (some (build_ack_packet eng.rt.asio)) source_message_id packets sender
        allSendsSucceeded =
      .ok (senderAfter eng packets sender,
        allSendsSucceeded && (outcomes eng packets sender).all (·.success),
        answers eng source_message_id packets (outcomes eng packets sender)) := by
  -- the flag and the sender are handed on from packet to packet
  induction packets generalizing sender allSendsSucceeded with
  | nil =>
      rw [deliver_all, outcomes, List.all_nil, Bool.and_true]
      rfl
  | cons packet packets ih =>
      simp only [deliver_all, call_ack_builder, ok_bind, ih, pure_eq_ok, outcomes, senderAfter,
        List.all_cons, Bool.and_assoc, deliver_effects]
      rw [answers_cons, answer, List.append_assoc, List.singleton_append, ackFor]

/-! ## What a datagram does -/

/-- The state after the packets of a datagram: the updates are applied as one
batch, if there are any and every send has succeeded. -/
def stateAfter (nowMs : UInt64) (r : ConversionResult) (results : List SendResult)
    (system_state_ : State.SystemState) : State.SystemState :=
  if results.all (·.success) && !r.state_updates.isEmpty then
    system_state_.applyBatch nowMs r.state_updates
  else system_state_

/-- What `processPacket` does once `convert` has returned `r`. -/
inductive Processed (eng : ProxyEngine F S) (nowMs : UInt64) (input : RawPacket)
    (st : EngineState S) (r : ConversionResult) : EngineState S → List Effect → Prop
  /-- Nothing was converted: the datagram is discarded. -/
  | discarded : r.packets = [] → Processed eng nowMs input st r st []
  /-- The message is acknowledged without being sent. -/
  | acknowledged : r.packets ≠ [] → r.ack_only = true → Processed eng nowMs input st r st
      [.ack (build_ack_packet eng.rt.asio 0 (u32At input.data 0) { success := true })]
  /-- Each packet is delivered and acknowledged. -/
  | delivered : r.packets ≠ [] → r.ack_only = false → Processed eng nowMs input st r
      { sender := senderAfter eng r.packets st.sender
        system_state_ :=
          stateAfter nowMs r (outcomes eng r.packets st.sender) st.system_state_ }
      (answers eng (u32At input.data 0) r.packets (outcomes eng r.packets st.sender))

variable {nowMs : UInt64} {input : RawPacket} {st st' : EngineState S} {effects : List Effect}

/-- What is listed is what `processPacket` does. -/
theorem processPacket_of_processed {r : ConversionResult}
    (hr : convert eng.rt input st.system_state_.getSnapshot = .ok r)
    (h : Processed eng nowMs input st r st' effects) :
    processPacket eng nowMs input st = .ok (st', effects) := by
  have hconverted := convert_ok hr
  -- the range check in `extract_message_id_from_header` passes: a header has been parsed
  have hsource : r.packets ≠ [] → extract_message_id_from_header input = u32At input.data 0 := by
    intro hne
    have hlen : 16 + _ ≤ input.data.length :=
      headerOk_of_orders_ne_nil (mt hconverted.packets_eq_nil_iff.mpr hne)
    exact if_neg (by omega)
  rw [processPacket, hr]
  simp only [ok_bind]
  cases h with
  | discarded hempty =>
      rw [if_pos (List.isEmpty_iff.mpr hempty)]
      rfl
  | acknowledged hne hack =>
      rw [if_neg (fun h => hne (List.isEmpty_iff.mp h)), hconverted.builder hne, hsource hne,
        hack]
      rfl
  | delivered hne hack =>
      rw [if_neg (fun h => hne (List.isEmpty_iff.mp h)), hconverted.builder hne, hsource hne,
        hack, if_neg Bool.false_ne_true, deliver_all_eq, Bool.true_and]
      rfl

/-- Once `convert` has returned, `processPacket` returns. -/
theorem processPacket_of_convert {r : ConversionResult}
    (hr : convert eng.rt input st.system_state_.getSnapshot = .ok r) :
    ∃ st' effects, processPacket eng nowMs input st = .ok (st', effects) ∧
      Processed eng nowMs input st r st' effects := by
  have hlisted : ∃ st' effects, Processed eng nowMs input st r st' effects := by
    by_cases hempty : r.packets = []
    · exact ⟨_, _, .discarded hempty⟩
    · cases hack : r.ack_only with
      | true => exact ⟨_, _, .acknowledged hempty hack⟩
      | false => exact ⟨_, _, .delivered hempty hack⟩
  obtain ⟨st', effects, h⟩ := hlisted
  exact ⟨st', effects, processPacket_of_processed hr h, h⟩

/-- **Steps.** Whatever `processPacket` does is one of three things. -/
theorem processPacket_ok (h : processPacket eng nowMs input st = .ok (st', effects)) :
    ∃ r, convert eng.rt input st.system_state_.getSnapshot = .ok r ∧
      Processed eng nowMs input st r st' effects := by
  cases hr : convert eng.rt input st.system_state_.getSnapshot with
  | error e =>
      rw [processPacket, hr] at h
      exact nomatch h
  | ok r =>
      -- `processPacket` is a function, so this is the step that was taken
      obtain ⟨st'', effects', h', hprocessed⟩ :=
        @processPacket_of_convert F _ S eng nowMs input st r hr
      obtain ⟨rfl, rfl⟩ := Prod.mk.inj (Except.ok.inj (h'.symm.trans h))
      exact ⟨r, rfl, hprocessed⟩

/-- The sends of a datagram are calls of the sender, each with the result it returned. -/
theorem sends_step {i : UInt64 × RawPacket} (h : Step eng st i effects st') :
    Run (SenderStep eng.sender_) st.sender (sendsOf effects) st'.sender := by
  obtain ⟨r, -, hprocessed⟩ := processPacket_ok h
  cases hprocessed with
  | discarded _ => exact .nil
  | acknowledged _ _ => exact .nil
  | delivered _ _ => exact sends_answers r.packets st.sender

/-- **The outcomes are the sender's.** The sends of a run are the calls the sender was
given, in their order, each with the result it returned. -/
theorem sends_run {log : List ((UInt64 × RawPacket) × List Effect)}
    (h : Run (Step eng) st log st') :
    Run (SenderStep eng.sender_) st.sender (sendsOf (log.flatMap fun e => e.2)) st'.sender := by
  refine h.history (fun log st' => Run (SenderStep eng.sender_) st.sender
    (sendsOf (log.flatMap fun e => e.2)) st'.sender) .nil ?_
  intro log st₁ i effects st₂ hrun hstep
  rw [List.flatMap_append, List.flatMap_singleton, sendsOf_append]
  exact hrun.append (sends_step hstep)

end

end CmsProxy.Answers
