/-
Answers: one per order, to the right order, and what they say.

The README's promise is that every processed message gets its ACK or NACK. Over
any run of datagrams this file shows what the engine makes of it:

* `orders_answered`: every packet is sent once, to the destination the table has
  for its LRAD, and acknowledged once, with its own outcome, which is what the sender
  returned for it; a packet without a destination is acknowledged only. A failure
  changes no other answer.
* `unknown_lrad_refused`: an order for an LRAD outside the table is refused with
  reason 2, except a cancellation, which is acknowledged without a lookup.
* `action_ids_iff`: the action id of the answer is that of the order exactly for
  emission-control orders, and for others when it is 0. The converter puts the
  id into the command where `extract_action_id_from_payload` looks for it for
  one of the four message types only.
-/
import CmsProxy.Answers
import CmsProxy.Reference

set_option autoImplicit false

namespace CmsProxy.Delivery

open BigEndian Interfaces JsonValue Converter Orders Engine Answers Runs
open Reference (linux linux_jsonLaws datagram orderBytes twoBlocks run_one)

section

variable {F : Type} [CFloat F] {S : Type}

/-! ## One answer per order -/

/-- The frame acknowledges, to the sender of `source_message_id`, a success or a failure. -/
structure Acknowledges (source_message_id : UInt32) (success : Bool) (frame : RawPacket) :
    Prop where
  fields : ∃ a, decodeAck frame = some a ∧ a.message_id = 576879045 ∧ a.message_length = 12 ∧
    a.source_message_id = source_message_id ∧
    (success = true → a.ack_nack = 1 ∧ a.nack_reason = 0) ∧ (success = false → a.ack_nack = 2)

/-- The effects answer the packets, one after the other: a send with its outcome
and the ACK of that outcome, or just a NACK where there is no destination. Each
frame is a function of its own packet and outcome. -/
inductive Answered (eng : ProxyEngine F S) (source_message_id : UInt32) :
    List RawPacket → List Effect → Prop
  | nil : Answered eng source_message_id [] []
  | sent {packet : RawPacket} {packets : List RawPacket} {destination : LradDestination}
      {result : SendResult} {frame : RawPacket} {effects : List Effect} :
      eng.lrad_config_[packet.destinationLradId]? = some destination →
      frame = ackFor eng source_message_id packet result →
      Acknowledges source_message_id result.success frame →
      Answered eng source_message_id packets effects →
      Answered eng source_message_id (packet :: packets)
        (.send packet destination.ip_address destination.port result :: .ack frame :: effects)
  | unrouted {packet : RawPacket} {packets : List RawPacket} {frame : RawPacket}
      {effects : List Effect} :
      eng.lrad_config_[packet.destinationLradId]? = none →
      frame = ackFor eng source_message_id packet (lrad_not_configured eng.rt.asio) →
      Acknowledges source_message_id false frame →
      Answered eng source_message_id packets effects →
      Answered eng source_message_id (packet :: packets) (.ack frame :: effects)

theorem acknowledges_ackFor (eng : ProxyEngine F S) (source_message_id : UInt32)
    (packet : RawPacket) (outcome : SendResult) :
    Acknowledges source_message_id outcome.success
      (ackFor eng source_message_id packet outcome) := by
  cases houtcome : outcome.success with
  | true => exact ⟨_, decodeAck_accepted houtcome, rfl, rfl, rfl, fun _ => ⟨rfl, rfl⟩, nofun⟩
  | false => exact ⟨_, decodeAck_refused houtcome, rfl, rfl, rfl, nofun, fun _ => rfl⟩

/-- The answers of a row of packets answer them. -/
theorem answered_answers {eng : ProxyEngine F S} {source_message_id : UInt32}
    (packets : List RawPacket) (sender : S) :
    Answered eng source_message_id packets
      (answers eng source_message_id packets (outcomes eng packets sender)) := by
  induction packets generalizing sender with
  | nil => exact Answered.nil
  | cons packet packets ih =>
      -- the rest is answered by the sender that the first packet leaves behind
      have hrest := ih (deliver eng packet sender).2.1
      rw [outcomes, answers_cons, answer, sendFor]
      cases hroute : eng.lrad_config_[packet.destinationLradId]? with
      | some destination =>
          exact .sent hroute rfl (acknowledges_ackFor eng source_message_id packet _) hrest
      | none =>
          rw [deliver_unrouted sender hroute]
          -- the outcome of a packet without a destination is the one made up by the engine
          exact .unrouted hroute rfl
            (acknowledges_ackFor eng source_message_id packet (lrad_not_configured eng.rt.asio))
            hrest

/-- What one datagram is answered with. -/
structure DatagramAnswered (eng : ProxyEngine F S) (input : RawPacket) (r : ConversionResult)
    (effects : List Effect) : Prop where
  none : r.packets = [] → effects = []
  each : r.packets ≠ [] → r.ack_only = false →
    Answered eng (u32At input.data 0) r.packets effects

theorem datagramAnswered_step {eng : ProxyEngine F S} {st st' : EngineState S}
    {i : UInt64 × RawPacket} {effects : List Effect} (h : Step eng st i effects st')
    (snapshot : SystemStateSnapshot) :
    ∃ r, convert eng.rt i.2 snapshot = .ok r ∧ DatagramAnswered eng i.2 r effects := by
  obtain ⟨r, hr, hprocessed⟩ := processPacket_ok h
  refine ⟨r, (convert_snapshot _ _).trans hr, fun hempty => ?_, fun hne hack => ?_⟩
  · -- no packet: both other ends of `processPacket` have one
    cases hprocessed with
    | discarded _ => rfl
    | acknowledged hne _ => exact absurd hempty hne
    | delivered hne _ => exact absurd hempty hne
  · -- a packet, and it is not only acknowledged: this leaves the loop
    cases hprocessed with
    | discarded hempty => exact absurd hempty hne
    | acknowledged _ hack' => exact absurd (hack.symm.trans hack') Bool.false_ne_true
    | delivered _ _ => exact answered_answers r.packets st.sender

/-- **One answer per order.** In every run, a datagram that is not converted has
no effect, and the packets of one that is, unless it is only acknowledged, are
answered one after the other, each with its own outcome. The outcomes are those the
sender returned when it was given these packets in this order. -/
theorem orders_answered {eng : ProxyEngine F S} {st₀ st : EngineState S}
    {log : List ((UInt64 × RawPacket) × List Effect)} (h : Run (Step eng) st₀ log st) :
    Run (SenderStep eng.sender_) st₀.sender (sendsOf (log.flatMap fun e => e.2)) st.sender ∧
    ∀ e ∈ log, ∀ snapshot, ∃ r, convert eng.rt e.1.2 snapshot = .ok r ∧
      DatagramAnswered eng e.1.2 r e.2 :=
  ⟨sends_run h, h.forall_mem (fun _ => True) (fun i o => ∀ snapshot, ∃ r,
    convert eng.rt i.2 snapshot = .ok r ∧ DatagramAnswered eng i.2 r o) trivial
    fun _ _ _ _ _ hstep => ⟨trivial, datagramAnswered_step hstep⟩⟩

/-- Of two orders one fails and the other has no destination. -/
theorem orders_answered_two : ∃ st effects, effects.length = 3 ∧
    Run (SenderStep Reference.playback) [{ success := false }] (sendsOf effects) st ∧
    ∀ snapshot, ∃ r, convert linux twoBlocks snapshot = .ok r ∧
      DatagramAnswered (Reference.engine [1]) twoBlocks r effects := by
  obtain ⟨st, effects, hrun, hlength⟩ :=
    @run_one (Reference.engine [1]) twoBlocks [{ success := false }] _ (fun p => p.2.length) 3
      (by decide)
  obtain ⟨hsends, hanswered⟩ := orders_answered hrun
  rw [List.flatMap_singleton] at hsends
  exact ⟨st.sender, effects, hlength, hsends, hanswered _ (List.mem_singleton_self _)⟩

/-! ## Orders for LRADs outside the table -/

/-- The effects answer the orders: one for an LRAD in the table is sent there and
acknowledged, one for another LRAD is refused with reason 2. -/
inductive OrdersAnswered (eng : ProxyEngine F S) : List Order → List Effect → Prop
  | nil : OrdersAnswered eng [] []
  | known {order : Order} {orders : List Order} {packet frame : RawPacket}
      {destination : LradDestination} {result : SendResult} {effects : List Effect} :
      eng.lrad_config_[order.lradId]? = some destination →
      packet.destinationLradId = order.lradId →
      OrdersAnswered eng orders effects →
      OrdersAnswered eng (order :: orders)
        (.send packet destination.ip_address destination.port result :: .ack frame :: effects)
  | unknown {order : Order} {orders : List Order} {frame : RawPacket} {ack : Ack}
      {effects : List Effect} :
      eng.lrad_config_[order.lradId]? = none →
      decodeAck frame = some ack → ack.ack_nack = 2 → ack.nack_reason = 2 →
      OrdersAnswered eng orders effects →
      OrdersAnswered eng (order :: orders) (.ack frame :: effects)

/-- An error of the engine's own making has reason 2. -/
theorem map_nack_reason_not_configured (asio : AsioErrors) :
    map_nack_reason asio (lrad_not_configured asio) = 2 := by
  rw [map_nack_reason, lrad_not_configured]
  simp only [Bool.false_eq_true, if_false, decide_true, Bool.true_or, if_true]

/-- An outcome of the engine's own making is refused with reason 2. -/
theorem decodeAck_not_configured (eng : ProxyEngine F S) (source_message_id : UInt32)
    (packet : RawPacket) :
    decodeAck (ackFor eng source_message_id packet (lrad_not_configured eng.rt.asio)) = some {
      message_id := 576879045
      message_length := 12
      action_id := extract_action_id_from_payload eng.rt packet
      source_message_id := source_message_id
      ack_nack := 2
      nack_reason := 2 } := by
  rw [ackFor, decodeAck_refused rfl, map_nack_reason_not_configured]

/-- The answers to the packets of a datagram are answers to its orders. -/
theorem ordersAnswered_of_answered {eng : ProxyEngine F S} {source_message_id : UInt32}
    {data : Bytes} {orders : List Order} {packets : List RawPacket} {effects : List Effect}
    (hpackets : List.Forall₂ (CarriesText eng.rt data) orders packets)
    (h : Answered eng source_message_id packets effects) : OrdersAnswered eng orders effects := by
  -- packets and orders come in the same order, so both lists are taken apart together
  induction h generalizing orders with
  | nil =>
      cases hpackets
      exact .nil
  | sent hroute _ _ _ ih =>
      cases hpackets with
      | cons hcarries hrest =>
          exact .known (hcarries.destination ▸ hroute) hcarries.destination (ih hrest)
  | @unrouted packet _ _ _ hroute hframe _ _ ih =>
      cases hpackets with
      | cons hcarries hrest =>
          have hack := decodeAck_not_configured eng source_message_id packet
          exact .unknown (hcarries.destination ▸ hroute) (hframe ▸ hack) rfl rfl (ih hrest)

/-- What a datagram does for orders to LRADs that are not in the table. -/
structure Refuses (eng : ProxyEngine F S) (data : Bytes) (effects : List Effect) : Prop where
  orders : messageKind data ≠ some .cueing_order_cancellation →
    OrdersAnswered eng (ordersOf data) effects
  cancellation : messageKind data = some .cueing_order_cancellation → ordersOf data ≠ [] →
    ∃ frame ack, effects = [.ack frame] ∧ decodeAck frame = some ack ∧ ack.ack_nack = 1 ∧
      ack.nack_reason = 0

theorem refuses_processed {eng : ProxyEngine F S} {nowMs : UInt64} {input : RawPacket}
    {st st' : EngineState S} {r : ConversionResult} {effects : List Effect}
    (hr : Converted eng.rt input.data r) (h : Processed eng nowMs input st r st' effects) :
    Refuses eng input.data effects := by
  cases h with
  | discarded hempty =>
      have horders := hr.packets_eq_nil_iff.mp hempty
      exact ⟨fun _ => horders ▸ .nil, fun _ hne => absurd horders hne⟩
  -- the way out that never looks at the table
  | acknowledged _ hack =>
      refine ⟨fun hkind => absurd (hr.ack_only.mp hack) hkind, fun _ _ => ?_⟩
      exact ⟨_, _, rfl, decodeAck_accepted rfl, rfl, rfl⟩
  | delivered _ hack =>
      refine ⟨fun _ => ?_, fun hkind _ => ?_⟩
      · exact ordersAnswered_of_answered hr.packets (answered_answers r.packets st.sender)
      · exact absurd (hack.symm.trans (hr.ack_only.mpr hkind)) Bool.false_ne_true

/-- **Unknown LRADs.** In every run, an order for an LRAD that is not in the table
is not sent and is refused with reason 2, in every kind of message but one: a
cancellation is acknowledged as accepted, and not sent, whatever LRAD it names. What is
sent for the other orders is what the sender was given, with the results it returned. -/
theorem unknown_lrad_refused {eng : ProxyEngine F S} {st₀ st : EngineState S}
    {log : List ((UInt64 × RawPacket) × List Effect)} (h : Run (Step eng) st₀ log st) :
    Run (SenderStep eng.sender_) st₀.sender (sendsOf (log.flatMap fun e => e.2)) st.sender ∧
    ∀ e ∈ log, Refuses eng e.1.2.data e.2 := by
  refine ⟨sends_run h, ?_⟩
  apply h.forall_mem (fun _ => True) (fun i o => Refuses eng i.2.data o) trivial
  intro s i effects s' _ hstep
  obtain ⟨r, hr, hprocessed⟩ := processPacket_ok hstep
  exact ⟨trivial, refuses_processed (convert_ok hr) hprocessed⟩

/-- One order of two is for an LRAD that is not in the table. -/
theorem unknown_lrad_refused_two : ∃ st effects, effects.length = 3 ∧
    Run (SenderStep Reference.playback) [] (sendsOf effects) st ∧
    Refuses (Reference.engine [1]) twoBlocks.data effects := by
  obtain ⟨st, effects, hrun, hlength⟩ :=
    @run_one (Reference.engine [1]) twoBlocks [] _ (fun p => p.2.length) 3 (by decide)
  obtain ⟨hsends, hrefuses⟩ := unknown_lrad_refused hrun
  rw [List.flatMap_singleton] at hsends
  exact ⟨st.sender, effects, hlength, hsends, hrefuses _ (List.mem_singleton_self _)⟩

/-- A cancellation for LRAD 5, which is not in the table, is reported as accepted. -/
theorem cancellation_accepted : ∃ st effects frame ack,
    processPacket (Reference.engine [1, 2]) 0 (datagram 1679949826 (orderBytes 7 5 0))
      { sender := [] } = .ok (st, effects) ∧
    (Reference.engine [1, 2]).lrad_config_[(5 : UInt16)]? = none ∧
    ordersOf (datagram 1679949826 (orderBytes 7 5 0)).data = [⟨7, 5⟩] ∧
    effects = [.ack frame] ∧ decodeAck frame = some ack ∧ ack.ack_nack = 1 := by
  -- the ACK as it is built, before it is decoded
  have h : (processPacket (Reference.engine [1, 2]) 0 (datagram 1679949826 (orderBytes 7 5 0))
      { sender := [] }).toOption.map Prod.snd
        = some [.ack (build_ack_packet .posix 0 1679949826 { success := true })] := by decide
  obtain ⟨⟨st, effects⟩, hstep, heffects⟩ := exists_ok_of_map h
  have hroute : (Reference.engine [1, 2]).lrad_config_[(5 : UInt16)]? = none := by
    show ((∅ : RoutingTable).insert 1 _ |>.insert 2 _)[(5 : UInt16)]? = none
    rw [Std.ExtTreeMap.getElem?_insert, Std.ExtTreeMap.getElem?_insert]
    decide
  exact ⟨st, effects, _, _, hstep, hroute, by decide, heffects, decodeAck_accepted rfl, rfl⟩

/-! ## Action ids -/

/-- The action id an effect acknowledges. -/
def ackActionId : Effect → Option UInt32
  | .ack frame => (decodeAck frame).map Ack.action_id
  | .send _ _ _ _ => none

/-- The action ids of the acknowledgements among the effects. -/
def ackActionIds (effects : List Effect) : List UInt32 := effects.filterMap ackActionId

/-- Each acknowledgement of a datagram carries the action id of its own order. -/
def Correlated (eng : ProxyEngine F S) (nowMs : UInt64) (input : RawPacket)
    (st : EngineState S) : Prop :=
  ∀ st' effects, processPacket eng nowMs input st = .ok (st', effects) →
    ackActionIds effects = (ordersOf input.data).map Order.actionId

/-- `convert` makes at least one packet of the datagram. -/
def Converts (rt : Runtime F) (input : RawPacket) (snapshot : SystemStateSnapshot) : Prop :=
  match convert rt input snapshot with
  | .ok r => r.packets ≠ []
  | .error _ => False

instance instDecidableConverts (rt : Runtime F) (input : RawPacket)
    (snapshot : SystemStateSnapshot) :
    Decidable (Converts rt input snapshot) :=
  match h : convert rt input snapshot with
  | .ok r => decidable_of_iff (r.packets ≠ []) (by rw [Converts, h])
  | .error _ => isFalse (by rw [Converts, h]; exact id)

theorem ackActionIds_append (effects effects' : List Effect) :
    ackActionIds (effects ++ effects') = ackActionIds effects ++ ackActionIds effects' :=
  List.filterMap_append

/-- An order is acknowledged under the id found in its packet. -/
theorem ackActionIds_answer (eng : ProxyEngine F S) (source_message_id : UInt32)
    (packet : RawPacket) (result : SendResult) :
    ackActionIds (answer eng source_message_id packet result) =
      [extract_action_id_from_payload eng.rt packet] := by
  have hack : ackActionIds [.ack (ackFor eng source_message_id packet result)] =
      [extract_action_id_from_payload eng.rt packet] := by
    rw [ackActionIds, ackFor, List.filterMap_cons, ackActionId, decodeAck_build, Option.map_some]
    rfl
  rw [answer, ackActionIds_append, hack, sendFor]
  cases eng.lrad_config_[packet.destinationLradId]? <;> rfl

theorem ackActionIds_answers (eng : ProxyEngine F S) (source_message_id : UInt32)
    (packets : List RawPacket) (results : List SendResult)
    (hlength : results.length = packets.length) :
    ackActionIds (answers eng source_message_id packets results) =
      packets.map (extract_action_id_from_payload eng.rt) := by
  induction packets generalizing results with
  | nil => rfl
  | cons packet packets ih =>
      obtain ⟨result, results, rfl⟩ := List.exists_cons_of_length_eq_add_one hlength
      rw [answers_cons, ackActionIds_append, ackActionIds_answer, ih _ (Nat.succ.inj hlength),
        List.map_cons, List.singleton_append]

/-- The extractor reads the value at the end of a path. -/
theorem extract_action_id_eq {rt : Runtime F} {p : RawPacket} {j : Json F}
    (h : rt.parse p.data = some j) : extract_action_id_from_payload rt p =
      (((Json.at? [str "param", str "action_id"] j).bind get_uint32).getD 0) := by
  rw [extract_action_id_from_payload, h]
  simp only [Json.at?]
  cases Json.find? (str "param") j with
  | none => rfl
  | some param =>
      simp only [Option.bind_some]
      cases Json.find? (str "action_id") param <;> rfl

/-- One kind of command has the action id at the end of that path. -/
theorem extract_action_id_of_carries {rt : Runtime F} (hjson : rt.JsonLaws) {data : Bytes}
    {o : Order} {p : RawPacket} (h : CarriesText rt data o p) :
    extract_action_id_from_payload rt p =
      if messageKind data = some .emission_control then o.actionId else 0 := by
  obtain ⟨j, hdump, hdoc⟩ := h.text
  rw [extract_action_id_eq (hjson.parse_dump j _ hdoc.sorted hdump), at?_reread,
    hdoc.at_action_id]
  split_ifs
  · show UInt32.ofNat o.actionId.toNat = o.actionId
    exact UInt32.ofNat_toNat
  · rfl

theorem map_extract_of_carries {rt : Runtime F} (hjson : rt.JsonLaws) {data : Bytes}
    {orders : List Order} {packets : List RawPacket}
    (h : List.Forall₂ (CarriesText rt data) orders packets) :
    packets.map (extract_action_id_from_payload rt) = orders.map fun o =>
      if messageKind data = some .emission_control then o.actionId else 0 := by
  induction h with
  | nil => rfl
  | cons hcarries _ ih =>
      rw [List.map_cons, List.map_cons, extract_action_id_of_carries hjson hcarries, ih]

/-- The ids a datagram is answered with. -/
theorem ackActionIds_processed {eng : ProxyEngine F S} (hjson : eng.rt.JsonLaws)
    {nowMs : UInt64} {input : RawPacket} {st st' : EngineState S} {r : ConversionResult}
    {effects : List Effect} (hr : Converted eng.rt input.data r)
    (h : Processed eng nowMs input st r st' effects) :
    ackActionIds effects = (ordersOf input.data).map fun o =>
      if messageKind input.data = some .emission_control then o.actionId else 0 := by
  cases h with
  | discarded hempty =>
      rw [hr.packets_eq_nil_iff.mp hempty]
      rfl
  | acknowledged hne hack =>
      have hkind := hr.ack_only.mp hack
      have hne' := mt hr.packets_eq_nil_iff.mpr hne
      -- a cancellation that was converted has exactly one order, and its ACK a literal 0
      rw [ordersOf_single hkind (by decide)] at hne' ⊢
      have hsize := of_not_not fun h => hne' (if_neg h)
      rw [if_pos hsize, hkind, ackActionIds, List.filterMap_cons, ackActionId,
        decodeAck_accepted rfl, Option.map_some]
      rfl
  | delivered _ _ =>
      rw [ackActionIds_answers _ _ _ _ (length_outcomes _ _)]
      exact map_extract_of_carries hjson hr.packets

/-- **Action ids.** The acknowledgements of a converted datagram carry the action
ids of its orders exactly if it is an emission-control order or all the ids are 0. -/
theorem action_ids_iff {eng : ProxyEngine F S} (hjson : eng.rt.JsonLaws) {nowMs : UInt64}
    {input : RawPacket} {st : EngineState S}
    (h : Converts eng.rt input st.system_state_.getSnapshot) :
    Correlated eng nowMs input st ↔
      messageKind input.data = some .emission_control ∨
        ∀ o ∈ ordersOf input.data, o.actionId = 0 := by
  rw [Converts] at h
  cases hr : convert eng.rt input st.system_state_.getSnapshot with
  | error e =>
      rw [hr] at h
      exact h.elim
  | ok r =>
      obtain ⟨st', effects, hstep, hprocessed⟩ :=
        @processPacket_of_convert F _ S eng nowMs input st r hr
      have hids := ackActionIds_processed hjson (convert_ok hr) hprocessed
      -- `processPacket` is a function: its one outcome decides
      have hiff : Correlated eng nowMs input st ↔
          ackActionIds effects = (ordersOf input.data).map Order.actionId := by
        constructor
        · intro hcorrelated
          exact hcorrelated st' effects hstep
        · intro heq st'' effects' hstep'
          rw [hstep] at hstep'
          obtain ⟨-, rfl⟩ := Prod.mk.inj (Except.ok.inj hstep')
          exact heq
      rw [hiff, hids, List.map_inj_left]
      -- for emission control the ids are the orders' own; for the other kinds they are all 0
      by_cases hkind : messageKind input.data = some .emission_control
      · simp only [hkind, if_true, implies_true, true_or]
      · simp only [hkind, if_false, false_or, eq_comm]

/-- A block with the action id 0. -/
theorem action_ids_iff_zero :
    Converts linux (datagram 1679949825 (orderBytes 0 1 1)) {} ∧
    (Correlated (Reference.engine [1]) 0 (datagram 1679949825 (orderBytes 0 1 1)) { sender := [] } ↔
      messageKind (datagram 1679949825 (orderBytes 0 1 1)).data = some .emission_control ∨
        ∀ o ∈ ordersOf (datagram 1679949825 (orderBytes 0 1 1)).data, o.actionId = 0) :=
  ⟨by decide, action_ids_iff linux_jsonLaws (by decide)⟩

/-- A block with the action id 7 is acknowledged under the id 0. -/
theorem action_id_lost :
    Converts linux (datagram 1679949825 (orderBytes 7 1 1)) {} ∧
    ¬ Correlated (Reference.engine [1]) 0 (datagram 1679949825 (orderBytes 7 1 1))
      { sender := [] } := by
  refine ⟨by decide, fun h => ?_⟩
  have hids : (processPacket (Reference.engine [1]) 0 (datagram 1679949825 (orderBytes 7 1 1))
      { sender := [] }).toOption.map (fun p => ackActionIds p.2) = some [0] := by decide
  obtain ⟨⟨st, effects⟩, hstep, hzero⟩ := exists_ok_of_map hids
  have hseven := h st effects hstep
  rw [hzero] at hseven
  exact absurd hseven (by decide)

end

end CmsProxy.Delivery
