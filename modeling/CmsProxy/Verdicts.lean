/-
What every order is told, and when it is told what.

An acknowledgement leaves the program as a datagram of its own, on a socket that may
not be there. Where it is, the datagrams are one per order, in the order of the
orders (`acks_of_orders`); where it is not, nobody is told anything and the program
goes on all the same.

What is said depends on the network, and on nothing else but the routing table. On a
network without failures the program is a function of what it receives: which orders
are accepted, which commands go out, and what is recorded can all be read off the
datagrams and the table (`healthy_network`).
-/
import CmsProxy.Proxy
import CmsProxy.Records

set_option autoImplicit false

namespace CmsProxy.Verdicts

open BigEndian Interfaces JsonValue Converter Orders Engine Answers Tcp Calls Runs
open AckSender
open Config (AppConfig)
open Engagement
open EventLoop Shutdown
open Interleaving
open Main hiding Step
open Proxy hiding sender
open Records (applied accounts_run)
open Wire

/-! ## Frames -/

/-- The frames among the effects. -/
def framesOf (effects : List Effect) : List RawPacket := effects.filterMap ackFrame

theorem framesOf_append (effects effects' : List Effect) :
    framesOf (effects ++ effects') = framesOf effects ++ framesOf effects' :=
  List.filterMap_append

/-- What a frame acknowledges: the message id of the datagram. -/
def acknowledged (frame : Bytes) : Option UInt32 :=
  (decodeAck { data := frame }).map Ack.source_message_id

/-- What the frames among the effects report, one after the other. -/
def verdicts (effects : List Effect) : List Bool := (framesOf effects).map reportsAccepted

/-- One acknowledgement of the datagram for each of its orders. -/
def expected (input : RawPacket) : List (Option UInt32) :=
  (ordersOf input.data).map fun _ => some (u32At input.data 0)

/-- A frame, with what it acknowledges. -/
structure Acks (source_message_id : UInt32) (frame : RawPacket) : Prop where
  length : frame.data.length = 28
  acknowledged : acknowledged frame.data = some source_message_id

theorem acks_build (asio : AsioErrors) (action_id source_message_id : UInt32) (sr : SendResult) :
    Acks source_message_id (build_ack_packet asio action_id source_message_id sr) :=
  ⟨rfl, congrArg (Option.map Ack.source_message_id)
    (decodeAck_build asio action_id source_message_id sr)⟩

section

variable {F : Type} [CFloat F] {S : Type} {eng : ProxyEngine F S}

/-- A packet is answered by one frame. -/
theorem framesOf_answer (source_message_id : UInt32) (packet : RawPacket) (result : SendResult) :
    framesOf (answer eng source_message_id packet result) =
      [ackFor eng source_message_id packet result] := by
  rw [answer, framesOf_append, sendFor]
  cases eng.lrad_config_[packet.destinationLradId]? <;> rfl

/-- A row of packets is answered by a row of frames. -/
theorem framesOf_answers (source_message_id : UInt32) (packets : List RawPacket)
    (results : List SendResult) :
    framesOf (answers eng source_message_id packets results) =
      List.zipWith (ackFor eng source_message_id) packets results := by
  induction packets generalizing results with
  | nil => rfl
  | cons packet packets ih =>
      cases results with
      | nil => rfl
      | cons result results =>
          rw [answers_cons, framesOf_append, framesOf_answer, ih]
          rfl

/-- The verdicts on a row of packets are their outcomes. -/
theorem verdicts_answers (source_message_id : UInt32) (packets : List RawPacket) (sender : S) :
    verdicts (answers eng source_message_id packets (outcomes eng packets sender)) =
      (outcomes eng packets sender).map (·.success) := by
  induction packets generalizing sender with
  | nil => rfl
  | cons packet packets ih =>
      have hrest := ih (deliver eng packet sender).2.1
      rw [verdicts] at hrest ⊢
      rw [outcomes, answers_cons, framesOf_append, List.map_append, hrest, framesOf_answer,
        List.map_singleton, reportsAccepted_ackFor]
      rfl

/-- **One datagram.** Each order has its frame. -/
theorem framesOf_step {st st' : EngineState S} {i : UInt64 × RawPacket} {effects : List Effect}
    (h : Step eng st i effects st') :
    (∀ frame ∈ framesOf effects, Acks (u32At i.2.data 0) frame) ∧
      (framesOf effects).length = (ordersOf i.2.data).length := by
  obtain ⟨r, hr, hprocessed⟩ := processPacket_ok h
  have hconverted := convert_ok hr
  have hlength := hconverted.packets.length_eq
  cases hprocessed with
  | discarded hempty =>
      rw [hconverted.packets_eq_nil_iff.mp hempty]
      exact ⟨fun _ hframe => absurd hframe List.not_mem_nil, rfl⟩
  | acknowledged hne hack =>
      constructor
      · intro frame hframe
        rw [List.mem_singleton.mp hframe]
        exact acks_build _ _ _ _
      · -- only a cancellation is acknowledged without being sent, and it has one order
        have horders := mt hconverted.packets_eq_nil_iff.mpr hne
        rw [ordersOf_single (hconverted.ack_only.mp hack) (by decide)] at horders ⊢
        rw [if_pos (of_not_not fun hsize => horders (if_neg hsize))]
        rfl
  | delivered _ _ =>
      rw [framesOf_answers]
      constructor
      · intro frame hframe
        obtain ⟨k, hk, rfl⟩ := List.getElem_of_mem hframe
        rw [List.getElem_zipWith]
        exact acks_build _ _ _ _
      · rw [List.length_zipWith, length_outcomes, Nat.min_self, hlength]

/-- What the frames of a datagram acknowledge. -/
theorem acknowledged_step {st st' : EngineState S} {i : UInt64 × RawPacket}
    {effects : List Effect} (h : Step eng st i effects st') :
    (framesOf effects).map (fun frame => acknowledged frame.data) = expected i.2 := by
  obtain ⟨hframes, hlength⟩ := framesOf_step h
  rw [expected, List.eq_replicate_of_mem (a := some (u32At i.2.data 0))
    (l := (framesOf effects).map _) ?_, List.map_const', List.length_map, hlength]
  intro a ha
  obtain ⟨frame, hframe, rfl⟩ := List.mem_map.mp ha
  exact (hframes frame hframe).acknowledged

theorem effectsOf_snoc (history : History) (i : UInt64 × RawPacket) (effects : List Effect) :
    effectsOf (history ++ [(i, effects)]) = effectsOf history ++ effects := by
  rw [effectsOf_append]
  exact congrArg _ (List.append_nil effects)

/-- What can be read off the effects of each datagram can be read off those of a run. -/
theorem flatMap_of_step {α : Type} {f : List Effect → List α} {g : RawPacket → List α}
    (happend : ∀ effects effects', f (effects ++ effects') = f effects ++ f effects')
    (hstep : ∀ st i effects st', Step eng st i effects st' → f effects = g i.2)
    {st₀ st : EngineState S} {history : History} (h : Run (Step eng) st₀ history st) :
    f (effectsOf history) = (inputs history).flatMap g := by
  refine h.history (fun history _ => f (effectsOf history) = (inputs history).flatMap g) ?_ ?_
  · exact List.self_eq_append_right.mp (happend [] [])
  · intro history st i effects st' hs hstep'
    rw [effectsOf_snoc, inputs_append, happend, hs, hstep _ _ _ _ hstep', List.flatMap_append]
    exact congrArg _ (List.append_nil _).symm

/-- The frames of a run. -/
theorem acknowledged_run {st₀ st : EngineState S} {history : History}
    (h : Run (Step eng) st₀ history st) :
    (framesOf (effectsOf history)).map (fun frame => acknowledged frame.data) =
      (inputs history).flatMap expected := by
  refine @flatMap_of_step _ _ _ eng _
    (fun effects => (framesOf effects).map fun frame => acknowledged frame.data) _
    (fun _ _ => ?_) (fun _ _ _ _ hstep => acknowledged_step hstep) _ _ _ h
  rw [framesOf_append, List.map_append]

theorem length_frames_run {st₀ st : EngineState S} {history : History}
    (h : Run (Step eng) st₀ history st) :
    ∀ frame ∈ framesOf (effectsOf history), frame.data.length = 28 := by
  refine h.history (fun history _ =>
    ∀ frame ∈ framesOf (effectsOf history), frame.data.length = 28)
    (fun _ hframe => absurd hframe List.not_mem_nil) ?_
  intro history st i effects st' hs hstep
  rw [effectsOf_snoc, framesOf_append]
  exact List.forall_mem_append.mpr
    ⟨hs, fun frame hframe => ((framesOf_step hstep).1 frame hframe).length⟩

/-! ## Datagrams -/

variable {A : Type}

/-- The datagrams that the sender constructed for this target hands to its socket. -/
def ackDatagrams (answers : AckAnswers A) (ip : Bytes) (port : UInt16)
    (network : ℕ → ErrorCode) (effects : List Effect) : List (Bytes × AckEndpoint A) :=
  (acknowledge (AckSender.construct answers ip port).1 network 0 effects).filterMap datagramOf

/-- What the handler in progress has still to acknowledge. -/
def pendingAcks (runner : Runner RawPacket Action) : List (Option UInt32) :=
  (framesOf (remaining runner)).map fun frame => acknowledged frame.data

/-- One datagram for each order, to the target. `pending` are those the handler of a
datagram has still to send. -/
structure OneForEach (target : AckEndpoint A) (datagrams : List (Bytes × AckEndpoint A))
    (ins : List RawPacket) (pending : List (Option UInt32)) : Prop where
  target : ∀ d ∈ datagrams, d.2 = target ∧ d.1.length = 28
  orders : datagrams.map (fun d => acknowledged d.1) ++ pending = ins.flatMap expected

/-- **Acknowledgements.** In every run, if the socket for acknowledgements could be set
up, there is a datagram of 28 bytes for each order processed, to the configured target,
in the order of the orders, naming the message the order came with; the handler of a
datagram sends them one by one, and what it has still to send completes the row. If it
could not, there is none. What the network does with commands or acknowledgements plays
no part. -/
theorem acks_of_orders {st₀ : EngineState S} (answers : AckAnswers A) (ip : Bytes)
    (port : UInt16) (network : ℕ → ErrorCode) {log : List Entry} {s : Process S}
    (h : Run (ProcessStep eng) (initial st₀) log s) :
    (∀ target, Targets answers ip port target →
      OneForEach target (ackDatagrams answers ip port network (performed log))
        (processed log ++ taken s.runner) (pendingAcks s.runner) ∧
      (s.runner.inFlight = [] → pendingAcks s.runner = [])) ∧
    ((¬ ∃ target, Targets answers ip port target) →
      ackDatagrams answers ip port network (performed log) = []) := by
  constructor
  · intro target htarget
    obtain ⟨history, st, hrun, hfollows⟩ := follows_run h 0
    have hlength := length_frames_run hrun
    have hacknowledged := acknowledged_run hrun
    rw [hfollows.effects, framesOf_append] at hlength hacknowledged
    rw [hfollows.inputs, List.map_append] at hacknowledged
    obtain ⟨hready, haimed⟩ := (construct_ready_iff answers ip port target).mpr htarget
    rw [ackDatagrams, datagrams_acknowledge, if_pos hready, haimed]
    refine ⟨⟨?_, ?_⟩, fun hidle => ?_⟩
    · intro d hd
      obtain ⟨frame, hframe, rfl⟩ := List.mem_map.mp hd
      exact ⟨rfl, hlength frame (List.mem_append_left _ hframe)⟩
    · rw [List.map_map, pendingAcks, ← hacknowledged]
      rfl
    · rw [pendingAcks, (ahead_of_idle (F := F) hidle).2.1]
      rfl
  · intro hnone
    have hready : (AckSender.construct answers ip port).1.ack_socket_ready_ = false := by
      by_contra htrue
      rw [Bool.not_eq_false] at htrue
      exact hnone ⟨_, (construct_ready_iff answers ip port _).mp ⟨htrue, rfl⟩⟩
    rw [ackDatagrams, datagrams_acknowledge, hready]
    rfl

end

/-- A socket that could be set up; addresses are numbers. -/
def oneAddress : AckAnswers ℕ where
  make_address _ := (ErrorCode.none, 1)
  unspecified := 0
  opened := ErrorCode.none

/-- The second datagram cannot be sent. -/
def secondFails : ℕ → ErrorCode :=
  fun k => if k = 1 then { value := 101, category := .system } else ErrorCode.none

/-- Two blocks, two datagrams. -/
theorem acks_of_orders_two : ∃ (log : List Entry) (s : Process (List SendResult)),
    (ackDatagrams oneAddress (str "226.1.1.43") 55010 secondFails (performed log)).length = 2 ∧
    OneForEach ⟨1, 55010⟩
      (ackDatagrams oneAddress (str "226.1.1.43") 55010 secondFails (performed log))
      (processed log ++ taken s.runner) (pendingAcks s.runner) := by
  obtain ⟨log, s, hrun, -, -, -, -, hlength⟩ := @exists_run Float32 _ _ (Reference.engine [1, 2])
    [packet] { sender := [] } _
    (fun p => (ackDatagrams oneAddress (str "226.1.1.43") 55010 secondFails p.2).length) 2
    (List.forall_mem_singleton.mpr receivable_packet) (by decide +kernel)
  obtain ⟨hone, -⟩ := (acks_of_orders oneAddress (str "226.1.1.43") 55010 secondFails
    hrun).1 ⟨1, 55010⟩ ⟨by decide, by decide, rfl, rfl, rfl⟩
  exact ⟨log, s, hlength, hone⟩

/-! ## A network without failures -/

section

variable {E : Type}

/-- No lookup, no connection and no write fails. A connection can still have been reset by
the time of the call. -/
structure Healthy (answers : Tcp.Answers E) : Prop where
  resolve : ErrorCode.failed answers.resolve.1 = false
  endpoints : answers.resolve.2 ≠ []
  connect : ErrorCode.failed answers.connect = false
  write : ∀ packet, ErrorCode.failed (write packet answers.write).1 = false

/-- A call none of whose operations can fail succeeds. -/
theorem success_of_healthy {s s' : TcpSender E} {call : Call E} {result : SendResult}
    {events : List (NetEvent E)} (hhealthy : Healthy call.answers)
    (h : Sends s call result s' events) : result.success = true := by
  cases h with
  | unresolved hresolution _ =>
      cases hresolution with
      | failed _ hfailed =>
          rcases hfailed with hfailed | hempty
          · exact nomatch hhealthy.resolve.symm.trans hfailed
          · exact absurd hempty hhealthy.endpoints
  | unreached _ _ hfailed _ => exact nomatch hhealthy.connect.symm.trans hfailed
  | whole _ _ => rfl
  | cut _ _ hanswer hfailed hn _ =>
      have hwrite := hhealthy.write call.packet.data
      rw [hanswer, Tcp.write, if_pos ⟨hn, hfailed⟩] at hwrite
      exact nomatch hwrite.symm.trans hfailed

end

section

variable {E : Type} [DecidableEq E] {F : Type} [CFloat F]
variable {eng : ProxyEngine F (Link E)} {network : Network E}

omit [CFloat F] in
/-- A packet is delivered if there is a destination for it. -/
theorem deliver_healthy (heng : eng.sender_ = networked network)
    (hhealthy : ∀ k, Healthy (network.answers k)) (packet : RawPacket) (link : Link E) :
    (deliver eng packet link).1.success = decide (packet.destinationLradId ∈ eng.lrad_config_) := by
  cases hroute : eng.lrad_config_[packet.destinationLradId]? with
  | none =>
      have hmem : packet.destinationLradId ∉ eng.lrad_config_ := by
        rw [← Std.ExtTreeMap.isSome_getElem?_iff_mem, hroute]
        exact Bool.false_ne_true
      rw [deliver_unrouted link hroute, decide_eq_false hmem]
      rfl
  | some destination =>
      have hmem : packet.destinationLradId ∈ eng.lrad_config_ := by
        rw [← Std.ExtTreeMap.isSome_getElem?_iff_mem, hroute]
        rfl
      obtain ⟨result, s', events, hsend, hsends⟩ := send_sends network.message link.tcp
        (link.call network packet destination.ip_address destination.port)
      rw [decide_eq_true hmem, deliver, hroute]
      simp only [heng]
      exact (congrArg (fun o => SendResult.success o.1) hsend).trans
        (success_of_healthy (hhealthy _) hsends)

omit [CFloat F] in
theorem outcomes_healthy (heng : eng.sender_ = networked network)
    (hhealthy : ∀ k, Healthy (network.answers k)) (packets : List RawPacket) (link : Link E) :
    (outcomes eng packets link).map (·.success) =
      packets.map fun p => decide (p.destinationLradId ∈ eng.lrad_config_) := by
  induction packets generalizing link with
  | nil => rfl
  | cons packet packets ih =>
      rw [outcomes, List.map_cons, List.map_cons, deliver_healthy heng hhealthy, ih]

/-! ### Verdicts, commands, record -/

/-- Whether an order of a datagram is to be accepted. -/
def admits (table : RoutingTable) (data : Bytes) (o : Order) : Bool :=
  decide (messageKind data = some .cueing_order_cancellation) || decide (o.lradId ∈ table)

/-- **Verdicts.** An order is accepted if its LRAD is in the table, or if it is a
cancellation. -/
theorem verdicts_step (heng : eng.sender_ = networked network)
    (hhealthy : ∀ k, Healthy (network.answers k)) {st st' : EngineState (Link E)}
    {i : UInt64 × RawPacket} {effects : List Effect} (h : Step eng st i effects st') :
    verdicts effects = (ordersOf i.2.data).map (admits eng.lrad_config_ i.2.data) := by
  obtain ⟨r, hr, hprocessed⟩ := processPacket_ok h
  have hconverted := convert_ok hr
  cases hprocessed with
  | discarded hempty =>
      rw [hconverted.packets_eq_nil_iff.mp hempty]
      rfl
  | acknowledged hne hack =>
      have hkind := hconverted.ack_only.mp hack
      have horders := mt hconverted.packets_eq_nil_iff.mpr hne
      rw [ordersOf_single hkind (by decide)] at horders ⊢
      rw [if_pos (of_not_not fun hsize => horders (if_neg hsize)), List.map_singleton, admits,
        decide_eq_true hkind, Bool.true_or]
      show [reportsAccepted (build_ack_packet _ _ _ _)] = [true]
      rw [reportsAccepted, decodeAck_accepted rfl]
      rfl
  | delivered _ hack =>
      have hkind : decide (messageKind i.2.data = some .cueing_order_cancellation) = false := by
        refine decide_eq_false fun hcancel => ?_
        exact absurd (hconverted.ack_only.mpr hcancel) (by rw [hack]; exact Bool.false_ne_true)
      rw [verdicts_answers, outcomes_healthy heng hhealthy]
      -- the packets have the destinations of the orders
      rw [← List.forall₂_eq_eq_eq, List.forall₂_map_left_iff, List.forall₂_map_right_iff]
      refine hconverted.packets.flip.imp fun p o hcarries => ?_
      rw [admits, hkind, Bool.false_or, hcarries.destination]

/-- The commands that go out for a datagram: those for LRADs in the table, unless it is
only acknowledged. -/
def commandsFor (rt : Runtime F) (table : RoutingTable) (input : RawPacket) : List Bytes :=
  match convert rt input {} with
  | .ok r =>
      if r.ack_only then []
      else (r.packets.filter fun p => decide (p.destinationLradId ∈ table)).map RawPacket.data
  | .error _ => []

/-- What is sent of a row of packets. -/
theorem sent_answers (heng : eng.sender_ = networked network)
    (hhealthy : ∀ k, Healthy (network.answers k)) (source_message_id : UInt32)
    (packets : List RawPacket) (link : Link E) :
    (answers eng source_message_id packets (outcomes eng packets link)).filterMap sentPacket =
      (packets.filter fun p => decide (p.destinationLradId ∈ eng.lrad_config_)).map
        RawPacket.data := by
  induction packets generalizing link with
  | nil => rfl
  | cons packet packets ih =>
      have hsuccess := deliver_healthy heng hhealthy packet link
      rw [outcomes, answers_cons, answer, List.filterMap_append, List.filterMap_append, ih,
        List.filter_cons, ← hsuccess, sendFor]
      cases hroute : eng.lrad_config_[packet.destinationLradId]? with
      | none =>
          rw [deliver_unrouted link hroute]
          rfl
      | some destination =>
          simp only [List.filterMap_cons, List.filterMap_nil, sentPacket, List.append_nil]
          cases (deliver eng packet link).1.success <;> rfl

/-- **Commands.** -/
theorem commands_step (heng : eng.sender_ = networked network)
    (hhealthy : ∀ k, Healthy (network.answers k)) {st st' : EngineState (Link E)}
    {i : UInt64 × RawPacket} {effects : List Effect} (h : Step eng st i effects st') :
    effects.filterMap sentPacket = commandsFor eng.rt eng.lrad_config_ i.2 := by
  obtain ⟨r, hr, hprocessed⟩ := processPacket_ok h
  have hconvert : convert eng.rt i.2 {} = .ok r := (convert_snapshot _ _).trans hr
  rw [commandsFor, hconvert]
  cases hprocessed with
  | discarded hempty =>
      simp only [hempty, List.filter_nil, List.map_nil, ite_self]
      rfl
  | acknowledged _ hack =>
      simp only [hack, if_true]
      rfl
  | delivered _ hack =>
      simp only [hack, Bool.false_eq_true, if_false]
      exact sent_answers heng hhealthy _ _ _

/-- The blocks a datagram records: all of them, if they are all for LRADs in the table. -/
def recordable (table : RoutingTable) (input : RawPacket) : List Block :=
  if messageKind input.data = some .change_configuration ∧
      ∀ b ∈ blocks input.data, b.lradId ∈ table then
    blocks input.data
  else []

omit [DecidableEq E] [CFloat F] in
theorem all_notRefused (effects : List Effect) :
    effects.all notRefused = (verdicts effects).all id := by
  induction effects with
  | nil => rfl
  | cons e effects ih =>
      rw [List.all_cons, ih]
      cases e with
      | send packet host port result => rfl
      | ack frame => rfl

/-- **Records.** -/
theorem recorded_step (heng : eng.sender_ = networked network)
    (hhealthy : ∀ k, Healthy (network.answers k)) {st st' : EngineState (Link E)}
    {i : UInt64 × RawPacket} {effects : List Effect} (h : Step eng st i effects st') :
    recordedBlocks (i, effects) = recordable eng.lrad_config_ i.2 := by
  rw [recordedBlocks, recordable]
  by_cases hk : messageKind i.2.data = some .change_configuration
  · have hadmits : ∀ o,
        admits eng.lrad_config_ i.2.data o = decide (o.lradId ∈ eng.lrad_config_) := by
      intro o
      rw [admits, hk]
      rfl
    have hiff : effects.all notRefused = true ↔
        ∀ b ∈ blocks i.2.data, b.lradId ∈ eng.lrad_config_ := by
      rw [all_notRefused, verdicts_step heng hhealthy h, ordersOf_blocks hk]
      simp only [List.all_map, List.all_eq_true, Function.comp_apply, id_eq, hadmits,
        decide_eq_true_eq]
    simp only [hk, true_and, hiff]
  · rw [if_neg fun h => hk h.1, if_neg fun h => hk h.1]

/-! ### Runs -/

/-- What is said, sent and recorded can be read off what was received. Of the datagrams
`ins` those in `recorded` have come to be recorded. -/
structure AsReceived (rt : Runtime F) (table : RoutingTable) (ins recorded : List RawPacket)
    (effects : List Effect) (state : State.SystemState) : Prop where
  verdicts : verdicts effects =
    ins.flatMap fun input => (ordersOf input.data).map (admits table input.data)
  commands : acceptedCommands effects = ins.flatMap (commandsFor rt table)
  record : ∀ id, engagement state id =
    lastValue (fun b : Block => b.lradId) engages (recorded.flatMap (recordable table)) id

theorem verdicts_run (heng : eng.sender_ = networked network)
    (hhealthy : ∀ k, Healthy (network.answers k)) {st₀ st : EngineState (Link E)}
    {history : History} (h : Run (Step eng) st₀ history st) :
    verdicts (effectsOf history) = (inputs history).flatMap fun input =>
      (ordersOf input.data).map (admits eng.lrad_config_ input.data) := by
  refine @flatMap_of_step _ _ _ eng _ verdicts _ (fun _ _ => ?_)
    (fun _ _ _ _ hstep => verdicts_step heng hhealthy hstep) _ _ _ h
  rw [verdicts, framesOf_append, List.map_append]
  rfl

theorem commands_run (heng : eng.sender_ = networked network)
    (hhealthy : ∀ k, Healthy (network.answers k)) {st₀ st : EngineState (Link E)}
    {history : History} (h : Run (Step eng) st₀ history st) :
    (effectsOf history).filterMap sentPacket =
      (inputs history).flatMap (commandsFor eng.rt eng.lrad_config_) :=
  @flatMap_of_step _ _ _ eng _ (List.filterMap sentPacket) _
    (fun _ _ => List.filterMap_append)
    (fun _ _ _ _ hstep => commands_step heng hhealthy hstep) _ _ _ h

/-- The record is a matter of what came last. -/
theorem recorded_run (heng : eng.sender_ = networked network)
    (hhealthy : ∀ k, Healthy (network.answers k)) {st₀ st : EngineState (Link E)}
    (h₀ : st₀.system_state_ = {}) {history : History} (h : Run (Step eng) st₀ history st)
    (id : UInt16) : engagement st.system_state_ id =
      lastValue (fun b : Block => b.lradId) engages
        ((inputs history).flatMap (recordable eng.lrad_config_)) id := by
  refine h.history (fun history st => engagement st.system_state_ id =
    lastValue (fun b : Block => b.lradId) engages
      ((inputs history).flatMap (recordable eng.lrad_config_)) id) ?_ ?_
  · rw [h₀, engagement, Std.ExtTreeMap.getElem?_empty]
    rfl
  · intro history st i effects st' hs hstep
    rw [engagement_step hstep id, hs, recorded_step heng hhealthy hstep, inputs_append,
      List.flatMap_append, lastValue_append]
    congr 2
    exact (List.append_nil _).symm

/-- **A network without failures.** In every run in which no lookup, no connection and
no write fails, an order taken up is accepted exactly if its LRAD is in the table, or if
it is a cancellation; the commands that go out are those of the orders for LRADs in the
table, in the order of reception; and an LRAD is recorded as its last block says among
the datagrams all of whose blocks are for LRADs in the table. Where the sender was
connected to, what became of its construction, and whether a connection has been reset
between two calls, plays no part. -/
theorem healthy_network {rt : Runtime F} {config : AppConfig} {first : Tcp.Answers E}
    (hhealthy : ∀ k, Healthy (network.answers k)) {log : List Entry} {s : Process (Link E)}
    (h : Run (ProcessStep (engine rt network config)) (initial (objects network config first))
      log s) :
    AsReceived rt config.lrad_destinations (processed log ++ taken s.runner)
      (processed log ++ applied s.runner) (performed log ++ remaining s.runner)
      s.state.system_state_ := by
  obtain ⟨history, st, hrun, hfollows⟩ := follows_run h 0
  rw [← hfollows.inputs, ← hfollows.effects]
  have hverdicts := @verdicts_run E _ F _ (engine rt network config) network rfl hhealthy _ _ _
    hrun
  have hcommands := @commands_run E _ F _ (engine rt network config) network rfl hhealthy _ _ _
    hrun
  refine ⟨hverdicts, (reported_run hrun).eq.trans hcommands, fun id => ?_⟩
  -- the engine that has been handed what is recorded
  obtain ⟨_, _, hrecording, hstate, haccounts⟩ := accounts_run h
  have hrecorded := @recorded_run E _ F _ (engine rt network config) network rfl hhealthy _ _
    rfl _ hrecording id
  rwa [hstate, haccounts.inputs] at hrecorded

end

/-- A network with one endpoint. Before the second call the connection has been reset. -/
def flawless : Network ℕ where
  message _ := []
  answers k :=
    { Answers.found 5 with
      remote_endpoint :=
        if k = 1 then { value := 104, category := .system } else ErrorCode.none }

theorem healthy_flawless (k : ℕ) : Healthy (flawless.answers k) :=
  ⟨rfl, List.cons_ne_nil _ _, rfl, fun _ => rfl⟩

/-- Of two blocks one is for an LRAD in the table. -/
theorem healthy_network_two : ∃ (log : List Entry) (s : Process (Link ℕ)),
    verdicts (performed log ++ remaining s.runner) = [true, false] ∧
    AsReceived Reference.linux (configuration [1]).lrad_destinations
      (processed log ++ taken s.runner) (processed log ++ applied s.runner)
      (performed log ++ remaining s.runner) s.state.system_state_ := by
  obtain ⟨log, s, hrun, hidle, -, -, -, hview⟩ := @exists_run Float32 _ _
    (engine Reference.linux flawless (configuration [1])) [packet]
    (objects flawless (configuration [1]) (flawless.answers 0)) _
    (fun p => verdicts p.2) [true, false] (List.forall_mem_singleton.mpr receivable_packet)
    (by decide +kernel)
  have hnothing : remaining s.runner = [] := by
    rw [hidle]
    rfl
  refine ⟨log, s, ?_, healthy_network healthy_flawless hrun⟩
  rw [hnothing, List.append_nil]
  exact hview

end CmsProxy.Verdicts
