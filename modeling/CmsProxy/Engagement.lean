/-
The recorded engagement: what the system state remembers of the orders.

A change-configuration block asks for one field of one LRAD. Seen so, the state
store is a map that a row of blocks overwrites (`record`), and a datagram either
applies its whole row or nothing (`engagement_all_or_nothing`). Two readings of a
run's history are compared at the end. The one that holds takes the blocks of
the datagrams all of whose orders were acknowledged as accepted
(`engagement_agrees`); the one that takes every single accepted block fails as
soon as a datagram is accepted in part (`accepted_block_not_recorded`).
-/
import CmsProxy.Answers
import CmsProxy.Reference
import CmsProxy.Registers

set_option autoImplicit false

namespace CmsProxy.Engagement

open BigEndian Interfaces JsonValue Converter Orders Engine Answers Runs
open State (SystemState applyNext applyAllUnlocked)
open Reference (twoBlocks run_one)
open Registers (lastWrite lastWrite_append read_foldl)

/-- What the state stores per LRAD. -/
abbrev LradStates := Std.ExtTreeMap UInt16 StateUpdate

/-! ## The last value written to a key -/

section LastWrite

variable {κ β γ : Type} [DecidableEq κ]

/-- The value of the last element of a row that belongs to a key. -/
def lastValue (key : β → κ) (value : β → γ) (row : List β) (id : κ) : Option γ :=
  (row.reverse.find? fun b => key b = id).map value

variable (key : β → κ) (value : β → γ)

/-- A key is a register that the elements with this key write. -/
theorem lastValue_eq_lastWrite (row : List β) (id : κ) :
    lastValue key value row id =
      lastWrite (fun b => if key b = id then some (value b) else none) row := by
  unfold lastValue lastWrite
  rw [List.getLast?_filterMap, List.find?_eq_findSome?_guard, List.map_findSome?]
  congr 1
  funext b
  by_cases h : key b = id <;> simp [Option.guard, h]

/-- What is written later counts. -/
theorem lastValue_append (row row' : List β) (id : κ) :
    lastValue key value (row ++ row') id =
      (lastValue key value row' id).or (lastValue key value row id) := by
  rw [lastValue_eq_lastWrite, lastWrite_append, ← lastValue_eq_lastWrite, ← lastValue_eq_lastWrite]

end LastWrite

/-! ## Blocks against the store -/

/-- The engagement a block asks for. -/
def engages (b : Block) : Bool := b.configuration != 0

/-- A block overwrites `engaged` of its LRAD, and nothing else. -/
def record (states : LradStates) (b : Block) : LradStates :=
  states.insert b.lradId { states.getD b.lradId {} with engaged := some (b.configuration != 0) }

/-- The recorded engagement of an LRAD. -/
def engagement (s : SystemState) (id : UInt16) : Option Bool :=
  (s.lradStates_[id]?).bind (·.engaged)

/-- One update of the store. -/
theorem applyUnlocked_update (b : Block) (s : SystemState) :
    s.applyUnlocked b.update = ({ s with lradStates_ := record s.lradStates_ b }, true) := rfl

/-- The batch of a row of blocks overwrites them one after the other. -/
theorem applyAllUnlocked_map (bs : List Block) (s : SystemState) :
    applyAllUnlocked (bs.map Block.update) s =
      ({ s with lradStates_ := bs.foldl record s.lradStates_ }, !bs.isEmpty) := by
  -- the flag is carried along, so the induction needs it general
  have loop : ∀ (bs : List Block) (s : SystemState) (changed : Bool),
      (bs.map Block.update).foldl applyNext (s, changed) =
      ({ s with lradStates_ := bs.foldl record s.lradStates_ }, !bs.isEmpty || changed) := by
    intro bs
    induction bs with
    | nil =>
        intro s changed
        rfl
    | cons b bs ih =>
        intro s changed
        rw [List.map_cons, List.foldl_cons, applyNext, applyUnlocked_update, ih]
        simp only [List.foldl_cons, List.isEmpty_cons, Bool.not_false, Bool.true_or, Bool.or_true]
  rw [applyAllUnlocked, loop, Bool.or_false]

theorem applyBatch_map {bs : List Block} (nowMs : UInt64) (s : SystemState) (hne : bs ≠ []) :
    s.applyBatch nowMs (bs.map Block.update) =
      { systemMode_ := s.systemMode_
        lradStates_ := bs.foldl record s.lradStates_
        lastUpdatedMs_ := nowMs } := by
  have hempty : bs.isEmpty = false := List.isEmpty_eq_false_iff.mpr hne
  rw [SystemState.applyBatch, applyAllUnlocked_map, hempty]
  rfl

/-- A block is what is recorded of its LRAD. -/
theorem getElem?_record (states : LradStates) (b : Block) (id : UInt16) :
    ((record states b)[id]?).bind (·.engaged) =
      if b.lradId = id then some (engages b) else (states[id]?).bind (·.engaged) := by
  rw [record, Std.ExtTreeMap.getElem?_insert]
  simp only [Std.LawfulEqCmp.compare_eq_iff_eq]
  split_ifs <;> rfl

/-- The last block for an LRAD is what a row of blocks leaves recorded. -/
theorem getElem?_foldl_record (bs : List Block) (states : LradStates) (id : UInt16) :
    ((bs.foldl record states)[id]?).bind (·.engaged) =
      (lastValue (fun b : Block => b.lradId) engages bs id).or
        ((states[id]?).bind (·.engaged)) := by
  have hstep : ∀ (states : LradStates) (b : Block),
      ((record states b)[id]?).bind (·.engaged) =
        (if b.lradId = id then some (engages b) else none).or
          ((states[id]?).bind (·.engaged)) := by
    intro states b
    rw [getElem?_record]
    split_ifs <;> rfl
  rw [lastValue_eq_lastWrite]
  exact @read_foldl _ _ _ _ record (fun states => (states[id]?).bind (·.engaged)) hstep bs states

/-! ## One datagram against the store -/

section

variable {F : Type} [CFloat F] {S : Type}

/-- The effect is a send that succeeded. -/
def sentOk : Effect → Bool
  | .send _ _ _ result => result.success
  | .ack _ => false

/-- How many sends among the effects succeeded. -/
def successfulSends (effects : List Effect) : ℕ := effects.countP sentOk

/-- The datagram orders configurations, at least one, and all were sent with success. -/
structure AllSent (data : Bytes) (effects : List Effect) : Prop where
  kind : messageKind data = some .change_configuration
  orders : blocks data ≠ []
  sends : successfulSends effects = (blocks data).length

omit [CFloat F] in
/-- A packet without a destination is never a success. -/
theorem successfulSends_sendFor (eng : ProxyEngine F S) (packet : RawPacket) (sender : S) :
    successfulSends (sendFor eng packet (deliver eng packet sender).1) =
      if (deliver eng packet sender).1.success then 1 else 0 := by
  cases hroute : eng.lrad_config_[packet.destinationLradId]? with
  | none =>
      rw [sendFor, hroute, deliver_unrouted sender hroute]
      rfl
  | some destination =>
      rw [sendFor, hroute, successfulSends, List.countP_singleton, sentOk]

/-- The sends that succeeded are the outcomes that are a success. -/
theorem successfulSends_answers (eng : ProxyEngine F S) (source_message_id : UInt32)
    (packets : List RawPacket) (sender : S) :
    successfulSends (answers eng source_message_id packets (outcomes eng packets sender)) =
      (outcomes eng packets sender).countP (·.success) := by
  induction packets generalizing sender with
  | nil => rfl
  | cons packet packets ih =>
      have hhead := successfulSends_sendFor eng packet sender
      have htail := ih (deliver eng packet sender).2.1
      rw [successfulSends] at hhead htail ⊢
      -- an acknowledgement is no send
      have hack : [Effect.ack (ackFor eng source_message_id packet
          (deliver eng packet sender).1)].countP sentOk = 0 := rfl
      rw [outcomes, answers_cons, answer, List.countP_append, List.countP_append, hhead, hack,
        htail, List.countP_cons, Nat.add_zero, Nat.add_comm]

omit [CFloat F] in
/-- What all succeeded was all routed. -/
theorem routed_of_outcomes {eng : ProxyEngine F S} {packets : List RawPacket} {sender : S}
    (h : (outcomes eng packets sender).all (·.success) = true) :
    ∀ packet ∈ packets, packet.destinationLradId ∈ eng.lrad_config_ := by
  induction packets generalizing sender with
  | nil => exact fun _ hmem => absurd hmem List.not_mem_nil
  | cons packet packets ih =>
      rw [outcomes, List.all_cons, Bool.and_eq_true] at h
      refine List.forall_mem_cons.mpr ⟨?_, ih h.2⟩
      -- without a destination the outcome is a failure
      by_contra hmissing
      have hroute := Std.ExtTreeMap.getElem?_eq_none hmissing
      rw [deliver_unrouted sender hroute] at h
      exact Bool.false_ne_true h.1

/-- The state after a datagram: all its blocks are recorded, or none. -/
structure AllOrNothing (eng : ProxyEngine F S) (nowMs : UInt64) (data : Bytes)
    (effects : List Effect) (s s' : SystemState) : Prop where
  all : AllSent data effects → s' = {
    systemMode_ := s.systemMode_
    lradStates_ := (blocks data).foldl record s.lradStates_
    lastUpdatedMs_ := nowMs }
  nothing : ¬ AllSent data effects → s' = s
  routed : AllSent data effects → ∀ b ∈ blocks data, b.lradId ∈ eng.lrad_config_

omit [CFloat F] in
/-- A datagram that is not all sent changes nothing. -/
theorem AllOrNothing.of_not {eng : ProxyEngine F S} {nowMs : UInt64} {data : Bytes}
    {effects : List Effect} {s : SystemState} (h : ¬ AllSent data effects) :
    AllOrNothing eng nowMs data effects s s :=
  ⟨fun hall => absurd hall h, fun _ => rfl, fun hall => absurd hall h⟩

/-- The orders of a datagram of configurations are its blocks. -/
theorem ordersOf_blocks {data : Bytes} (hk : messageKind data = some .change_configuration) :
    ordersOf data = (blocks data).map Block.toOrder := by
  rw [ordersOf, hk]

omit [CFloat F] in
/-- A datagram of configurations is converted into one packet per block. -/
theorem length_packets {rt : Runtime F} {data : Bytes} {r : ConversionResult}
    (hr : Converted rt data r) (hk : messageKind data = some .change_configuration) :
    r.packets.length = (blocks data).length := by
  rw [← hr.packets.length_eq, ordersOf_blocks hk, List.length_map]

/-- The effects tell when every outcome was a success. -/
theorem allSent_answers_iff {eng : ProxyEngine F S} {data : Bytes} {source_message_id : UInt32}
    {packets : List RawPacket} {sender : S}
    (hk : messageKind data = some .change_configuration) (hne : blocks data ≠ [])
    (hlength : packets.length = (blocks data).length) :
    AllSent data (answers eng source_message_id packets (outcomes eng packets sender)) ↔
      (outcomes eng packets sender).all (·.success) = true := by
  have hsends := successfulSends_answers eng source_message_id packets sender
  rw [List.all_eq_true, ← List.countP_eq_length, length_outcomes, hlength, ← hsends]
  exact ⟨AllSent.sends, fun h => ⟨hk, hne, h⟩⟩

theorem allOrNothing_processed {eng : ProxyEngine F S} {nowMs : UInt64} {input : RawPacket}
    {st st' : EngineState S} {r : ConversionResult} {effects : List Effect}
    (hr : Converted eng.rt input.data r) (h : Processed eng nowMs input st r st' effects) :
    AllOrNothing eng nowMs input.data effects st.system_state_ st'.system_state_ := by
  cases h with
  | discarded hempty =>
      -- no packets, so no blocks
      refine .of_not fun hall => ?_
      have hlength := length_packets hr hall.kind
      rw [hempty] at hlength
      exact hall.orders (List.eq_nil_of_length_eq_zero hlength.symm)
  | acknowledged _ hack =>
      refine .of_not fun hall => ?_
      -- only a cancellation is acknowledged without being sent
      exact nomatch (hr.ack_only.mp hack).symm.trans hall.kind
  | delivered hne _ =>
      by_cases hk : messageKind input.data = some .change_configuration
      · have hlength := length_packets hr hk
        have horders : blocks input.data ≠ [] := by
          rwa [← List.length_pos_iff, ← hlength, List.length_pos_iff]
        have hiff := @allSent_answers_iff F _ S eng input.data (u32At input.data 0) r.packets
          st.sender hk horders hlength
        rw [stateAfter, hr.updates, updatesOf, if_pos hk]
        refine ⟨fun hall => ?_, fun hall => ?_, fun hall => ?_⟩
        · rw [hiff.mp hall, applyBatch_map nowMs _ horders]
          rw [List.isEmpty_eq_false_iff.mpr (mt List.map_eq_nil_iff.mp horders)]
          rfl
        · have hfailed := Bool.eq_false_iff.mpr (mt hiff.mpr hall)
          rw [hfailed]
          rfl
        · intro b hb
          have ho : b.toOrder ∈ ordersOf input.data := by
            rw [ordersOf_blocks hk]
            exact List.mem_map_of_mem hb
          obtain ⟨p, hp, hcarries⟩ := exists_of_forall₂ hr.packets ho
          exact hcarries.destination ▸ routed_of_outcomes (hiff.mp hall) p hp
      · -- the other kinds ask for no update, whatever was sent
        have hnot : ∀ effects, ¬ AllSent input.data effects := fun _ hall => hk hall.kind
        rw [stateAfter, hr.updates, updatesOf, if_neg hk, List.isEmpty_nil, Bool.not_true,
          Bool.and_false, if_neg Bool.false_ne_true]
        exact .of_not (hnot _)

/-- One step of the engine is all or nothing. -/
theorem allOrNothing_step {eng : ProxyEngine F S} {st st' : EngineState S}
    {i : UInt64 × RawPacket} {effects : List Effect} (h : Step eng st i effects st') :
    AllOrNothing eng i.1 i.2.data effects st.system_state_ st'.system_state_ := by
  obtain ⟨r, hr, hprocessed⟩ := processPacket_ok h
  exact allOrNothing_processed (convert_ok hr) hprocessed

/-! ## What can be recorded -/

/-- The entries are engagements, and nothing else, of LRADs in the table. -/
def OnlyEngaged (eng : ProxyEngine F S) (states : LradStates) : Prop :=
  ∀ id state, states[id]? = some state →
    id ∈ eng.lrad_config_ ∧ ∃ engaged, state = { engaged := some engaged }

omit [CFloat F] in
/-- A block for an LRAD in the table adds such an entry. -/
theorem onlyEngaged_record {eng : ProxyEngine F S} {states : LradStates} {b : Block}
    (h : OnlyEngaged eng states) (hb : b.lradId ∈ eng.lrad_config_) :
    OnlyEngaged eng (record states b) := by
  intro id state hstate
  rw [record, Std.ExtTreeMap.getElem?_insert] at hstate
  simp only [Std.LawfulEqCmp.compare_eq_iff_eq] at hstate
  split_ifs at hstate with hid
  · -- what is overwritten is a new entry, or one with nothing but `engaged` in it
    have hstored : ∃ old, states.getD b.lradId {} = { engaged := old } := by
      rw [Std.ExtTreeMap.getD_eq_getD_getElem?]
      cases hold : states[b.lradId]? with
      | none => exact ⟨none, rfl⟩
      | some old =>
          obtain ⟨-, engaged, rfl⟩ := h _ _ hold
          exact ⟨some engaged, rfl⟩
    obtain ⟨old, hold⟩ := hstored
    rw [hold] at hstate
    exact ⟨hid ▸ hb, _, (Option.some.inj hstate).symm⟩
  · exact h id state hstate

omit [CFloat F] in
theorem onlyEngaged_foldl {eng : ProxyEngine F S} (bs : List Block) {states : LradStates}
    (h : OnlyEngaged eng states) (hbs : ∀ b ∈ bs, b.lradId ∈ eng.lrad_config_) :
    OnlyEngaged eng (bs.foldl record states) := by
  induction bs generalizing states with
  | nil => exact h
  | cons b bs ih =>
      obtain ⟨hb, hbs⟩ := List.forall_mem_cons.mp hbs
      exact ih (onlyEngaged_record h hb) hbs

/-- What a run can have recorded. -/
structure OnlyEngagements (eng : ProxyEngine F S) (s : SystemState) : Prop where
  systemMode : s.systemMode_ = []
  entries : OnlyEngaged eng s.lradStates_

omit [CFloat F] in
theorem onlyEngagements_empty (eng : ProxyEngine F S) : OnlyEngagements eng {} := by
  refine ⟨rfl, fun id state hstate => ?_⟩
  rw [Std.ExtTreeMap.getElem?_empty] at hstate
  exact nomatch hstate

/-- A step keeps to engagements. -/
theorem OnlyEngagements.step {eng : ProxyEngine F S} {st st' : EngineState S}
    {i : UInt64 × RawPacket} {effects : List Effect} (hs : OnlyEngagements eng st.system_state_)
    (h : Step eng st i effects st') : OnlyEngagements eng st'.system_state_ := by
  have hstep := allOrNothing_step h
  by_cases hall : AllSent i.2.data effects
  · rw [hstep.all hall]
    exact ⟨hs.systemMode, onlyEngaged_foldl _ hs.entries (hstep.routed hall)⟩
  · rw [hstep.nothing hall]
    exact hs

/-- **All or nothing.** In every state a run from the empty state reaches, nothing
is recorded but engagements of LRADs in the table, and the next datagram records
all its blocks or leaves the state as it is. The outcomes that decide which are those
the sender returned. -/
theorem engagement_all_or_nothing {eng : ProxyEngine F S} {st₀ st : EngineState S}
    {log : List ((UInt64 × RawPacket) × List Effect)} (h : Run (Step eng) st₀ log st)
    (h₀ : st₀.system_state_ = {}) :
    OnlyEngagements eng st.system_state_ ∧
      ∀ i effects st', Step eng st i effects st' →
        AllOrNothing eng i.1 i.2.data effects st.system_state_ st'.system_state_ ∧
        Run (SenderStep eng.sender_) st.sender (sendsOf effects) st'.sender := by
  refine ⟨?_, fun i effects st' hstep => ⟨allOrNothing_step hstep, sends_step hstep⟩⟩
  exact h.invariant (fun st => OnlyEngagements eng st.system_state_)
    (h₀ ▸ onlyEngagements_empty eng) (fun s i effects s' hs hstep => hs.step hstep)

/-- Two blocks, both sent. -/
theorem engagement_all_or_nothing_two : ∃ effects st, successfulSends effects = 2 ∧
    OnlyEngagements (Reference.engine [1, 2]) st.system_state_ ∧
      ∀ i effects st', Step (Reference.engine [1, 2]) st i effects st' →
        AllOrNothing (Reference.engine [1, 2]) i.1 i.2.data effects st.system_state_
          st'.system_state_ ∧
        Run (SenderStep Reference.playback) st.sender (sendsOf effects) st'.sender := by
  obtain ⟨st, effects, hrun, hsends⟩ :=
    @run_one (Reference.engine [1, 2]) twoBlocks [] _ (fun p => successfulSends p.2) 2 (by decide)
  exact ⟨effects, st, hsends, engagement_all_or_nothing hrun rfl⟩

/-! ## The record against the acknowledgements -/

/-- The frame reports an accepted order. -/
def reportsAccepted (frame : RawPacket) : Bool := (decodeAck frame).any fun a => a.ack_nack == 1

/-- The effect is not a refusal. -/
def notRefused : Effect → Bool
  | .ack frame => reportsAccepted frame
  | .send _ _ _ _ => true

/-- The blocks of a datagram none of whose orders was refused. -/
def recordedBlocks (e : (UInt64 × RawPacket) × List Effect) : List Block :=
  if messageKind e.1.2.data = some .change_configuration ∧ e.2.all notRefused = true then
    blocks e.1.2.data
  else []

theorem reportsAccepted_ackFor (eng : ProxyEngine F S) (source_message_id : UInt32)
    (packet : RawPacket) (result : SendResult) :
    reportsAccepted (ackFor eng source_message_id packet result) = result.success := by
  rw [reportsAccepted, ackFor]
  cases hresult : result.success with
  | true =>
      rw [decodeAck_accepted hresult]
      rfl
  | false =>
      rw [decodeAck_refused hresult]
      rfl

/-- The acknowledgements tell when every outcome was a success. -/
theorem all_notRefused_answers (eng : ProxyEngine F S) (source_message_id : UInt32)
    (packets : List RawPacket) (sender : S) :
    (answers eng source_message_id packets (outcomes eng packets sender)).all notRefused =
      (outcomes eng packets sender).all (·.success) := by
  induction packets generalizing sender with
  | nil => rfl
  | cons packet packets ih =>
      have hsend : (sendFor eng packet (deliver eng packet sender).1).all notRefused = true := by
        rw [sendFor]
        cases eng.lrad_config_[packet.destinationLradId]? <;> rfl
      rw [outcomes, answers_cons, answer, List.all_append, List.all_append, hsend, ih,
        List.all_cons, List.all_cons, List.all_nil, notRefused, reportsAccepted_ackFor,
        Bool.true_and, Bool.and_true]

/-- Orders are all sent exactly when none is refused. -/
theorem allSent_iff_notRefused {eng : ProxyEngine F S} {nowMs : UInt64} {input : RawPacket}
    {st st' : EngineState S} {r : ConversionResult} {effects : List Effect}
    (hr : Converted eng.rt input.data r) (h : Processed eng nowMs input st r st' effects)
    (hk : messageKind input.data = some .change_configuration) (hne : blocks input.data ≠ []) :
    AllSent input.data effects ↔ effects.all notRefused = true := by
  have hlength := length_packets hr hk
  have hpackets : r.packets ≠ [] := by
    rwa [← List.length_pos_iff, hlength, List.length_pos_iff]
  cases h with
  | discarded hempty => exact absurd hempty hpackets
  | acknowledged _ hack => exact nomatch (hr.ack_only.mp hack).symm.trans hk
  | delivered _ _ => rw [all_notRefused_answers, allSent_answers_iff hk hne hlength]

/-- The two sides agree on which blocks count: all of a datagram, or none. -/
theorem recordedBlocks_step {eng : ProxyEngine F S} {st st' : EngineState S}
    {i : UInt64 × RawPacket} {effects : List Effect} (h : Step eng st i effects st') :
    (AllSent i.2.data effects ∧ recordedBlocks (i, effects) = blocks i.2.data) ∨
      (¬ AllSent i.2.data effects ∧ recordedBlocks (i, effects) = []) := by
  obtain ⟨r, hr, hprocessed⟩ := processPacket_ok h
  rw [recordedBlocks]
  by_cases hk : messageKind i.2.data = some .change_configuration
  · by_cases hne : blocks i.2.data = []
    · refine Or.inr ⟨fun hall => hall.orders hne, ?_⟩
      rw [hne, ite_self]
    · rw [allSent_iff_notRefused (convert_ok hr) hprocessed hk hne]
      by_cases hall : effects.all notRefused = true
      · exact Or.inl ⟨hall, if_pos ⟨hk, hall⟩⟩
      · exact Or.inr ⟨hall, if_neg fun h => hall h.2⟩
  · exact Or.inr ⟨fun hall => hk hall.kind, if_neg fun h => hk h.1⟩

/-- A datagram records the blocks its acknowledgements report. -/
theorem engagement_step {eng : ProxyEngine F S} {st st' : EngineState S}
    {i : UInt64 × RawPacket} {effects : List Effect} (h : Step eng st i effects st')
    (id : UInt16) :
    engagement st'.system_state_ id =
      (lastValue (fun b : Block => b.lradId) engages (recordedBlocks (i, effects)) id).or
        (engagement st.system_state_ id) := by
  have hstep := allOrNothing_step h
  rcases recordedBlocks_step h with ⟨hall, hblocks⟩ | ⟨hall, hblocks⟩
  · rw [hstep.all hall, hblocks]
    exact getElem?_foldl_record _ _ _
  · rw [hstep.nothing hall, hblocks]
    rfl

/-- **The record and the acknowledgements.** After every run from the empty state
an LRAD is recorded as its last block says among the datagrams of configurations
none of whose orders was refused, and not at all without such a block. -/
theorem engagement_agrees {eng : ProxyEngine F S} {st₀ st : EngineState S}
    {log : List ((UInt64 × RawPacket) × List Effect)} (h : Run (Step eng) st₀ log st)
    (h₀ : st₀.system_state_ = {}) (id : UInt16) :
    engagement st.system_state_ id =
      lastValue (fun b : Block => b.lradId) engages (log.flatMap recordedBlocks) id := by
  -- the invariant ties the store to the whole history; each step appends to both
  refine h.history (fun log st => engagement st.system_state_ id =
    lastValue (fun b : Block => b.lradId) engages (log.flatMap recordedBlocks) id) ?_ ?_
  · rw [h₀, engagement, Std.ExtTreeMap.getElem?_empty]
    rfl
  · intro log s i effects s' hs hstep
    rw [engagement_step hstep id, hs, List.flatMap_append, lastValue_append, List.flatMap_singleton]

/-- Two blocks, both sent. -/
theorem engagement_agrees_two : ∃ effects, ∃ st : EngineState (List SendResult),
    successfulSends effects = 2 ∧
    engagement st.system_state_ 1 =
      lastValue (fun b : Block => b.lradId) engages
        ([((0, twoBlocks), effects)].flatMap recordedBlocks) 1 := by
  obtain ⟨st, effects, hrun, hsends⟩ :=
    @run_one (Reference.engine [1, 2]) twoBlocks [] _ (fun p => successfulSends p.2) 2 (by decide)
  exact ⟨effects, st, hsends, engagement_agrees hrun rfl 1⟩

/-- The frame of an acknowledgement. -/
def ackFrame : Effect → Option RawPacket
  | .ack frame => some frame
  | .send _ _ _ _ => none

/-- The blocks of a datagram that were acknowledged as accepted, each by itself. -/
def acceptedBlocks (e : (UInt64 × RawPacket) × List Effect) : List Block :=
  if messageKind e.1.2.data = some .change_configuration then
    ((blocks e.1.2.data).zip (e.2.filterMap ackFrame)).filterMap fun p =>
      if reportsAccepted p.2 then some p.1 else none
  else []

/-- Of two blocks the first is accepted and the second refused: nothing is recorded. -/
theorem accepted_block_not_recorded : ∃ effects st,
    Run (Step (Reference.engine [1])) { sender := [] } [((0, twoBlocks), effects)] st ∧
    ¬ ∀ id, engagement st.system_state_ id =
      lastValue (fun b : Block => b.lradId) engages
        ([((0, twoBlocks), effects)].flatMap acceptedBlocks) id := by
  obtain ⟨st, effects, hrun, hview⟩ :=
    @run_one (Reference.engine [1]) twoBlocks [] _ (fun p => (engagement p.1.system_state_ 1,
      lastValue (fun b : Block => b.lradId) engages (acceptedBlocks ((0, twoBlocks), p.2)) 1))
      (none, some true) (by decide)
  -- the store has nothing for LRAD 1, the accepted blocks have one
  obtain ⟨hnone, hsome⟩ := Prod.mk.inj hview
  refine ⟨effects, st, hrun, fun h => ?_⟩
  have h1 := h 1
  rw [List.flatMap_singleton, hnone, hsome] at h1
  exact nomatch h1

end

end CmsProxy.Engagement
