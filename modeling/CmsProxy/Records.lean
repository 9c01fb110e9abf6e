/-
What the record is, and what it is good for.

The state store of a run is what its history leaves: whoever has seen the datagrams,
the acknowledgements and the clock can work it out (`record_of_history`). It is
written only. Nothing the proxy does depends on it, nor on the clock, nor on how the
two threads take turns: two processes that have received the same datagrams, and have
caught up, have had the same effects (`record_is_write_only`).
-/
import CmsProxy.Engagement
import CmsProxy.Interleaving

set_option autoImplicit false

namespace CmsProxy.Records

open BigEndian Interfaces Converter Orders Engine Answers Engagement EventLoop Runs Shutdown
open Interleaving
open Registers (lastWrite lastWrite_append)
open State (SystemState)
open Main hiding Step
open Receiver hiding Entry

section

variable {F : Type} [CFloat F] {S : Type} {eng : ProxyEngine F S}

/-! ## What a history leaves -/

/-- The clock value a datagram leaves, if it leaves anything. -/
def stamp (e : (UInt64 × RawPacket) × List Effect) : Option UInt64 :=
  if recordedBlocks e = [] then none else some e.1.1

/-- The store after the blocks of a history, with the time of the last of them. -/
def replay (history : History) (s : SystemState) : SystemState where
  systemMode_ := s.systemMode_
  lradStates_ := (history.flatMap recordedBlocks).foldl record s.lradStates_
  lastUpdatedMs_ := (lastWrite stamp history).getD s.lastUpdatedMs_

theorem replay_snoc (history : History) (e : (UInt64 × RawPacket) × List Effect)
    (s : SystemState) : replay (history ++ [e]) s = replay [e] (replay history s) := by
  simp only [replay, List.flatMap_append, List.foldl_append, lastWrite_append, Option.getD_or]

/-- One datagram. -/
theorem replay_step {st st' : EngineState S} {i : UInt64 × RawPacket} {effects : List Effect}
    (h : Step eng st i effects st') :
    st'.system_state_ = replay [(i, effects)] st.system_state_ := by
  have hstep := allOrNothing_step h
  rcases recordedBlocks_step h with ⟨hall, hblocks⟩ | ⟨hall, hblocks⟩
  · have hstamp : stamp (i, effects) = some i.1 := by
      rw [stamp, hblocks, if_neg hall.orders]
    rw [hstep.all hall, replay, List.flatMap_singleton, hblocks]
    simp [lastWrite, hstamp]
  · have hstamp : stamp (i, effects) = none := by
      rw [stamp, hblocks, if_pos rfl]
    rw [hstep.nothing hall, replay, List.flatMap_singleton, hblocks]
    simp [lastWrite, hstamp]

theorem replay_run {st₀ st : EngineState S} {history : History}
    (h : Run (Step eng) st₀ history st) :
    st.system_state_ = replay history st₀.system_state_ := by
  refine h.history (fun history st => st.system_state_ = replay history st₀.system_state_) rfl ?_
  intro history st i effects st' hs hstep
  rw [replay_step hstep, hs, replay_snoc]

/-- The datagram in the handler, once the handler has performed all its actions. Before
that nothing of the datagram is recorded. -/
def applied : Runner RawPacket Action → List RawPacket
  | .running h [] .returns => [h]
  | _ => []

theorem eq_of_applied {runner : Runner RawPacket Action} (h : applied runner ≠ []) :
    ∃ input, runner = .running input [] .returns := by
  cases runner with
  | running input rest ending =>
      cases rest with
      | cons a rest => exact absurd rfl h
      | nil =>
          cases ending with
          | returns => exact ⟨input, rfl⟩
          | throws => exact absurd rfl h
          | hangs => exact absurd rfl h
  | _ => exact absurd rfl h

omit [CFloat F] in
theorem system_performAll {nowMs : UInt64} {actions : List Action} {st : EngineState S}
    (h : ∀ updates, .applyBatch updates ∉ actions) :
    (performAll eng nowMs actions st).system_state_ = st.system_state_ := by
  induction actions generalizing st with
  | nil => rfl
  | cons a actions ih =>
      have hrest := @ih (a.perform eng nowMs st) fun updates hmem =>
        h updates (List.mem_cons_of_mem a hmem)
      refine hrest.trans ?_
      cases a with
      | applyBatch updates => exact absurd List.mem_cons_self (h updates)
      | effect e => cases e <;> rfl
      | _ => rfl

/-- A handler that has not come to its end has applied no batch. -/
theorem noBatch_of_applied {st : EngineState S} {runner : Runner RawPacket Action}
    {done : List Action} (h : Underway (fun input => handler eng input st) runner done)
    (hnone : applied runner = []) : ∀ updates, .applyBatch updates ∉ done := by
  have hfailing : ∀ {input ending}, handler eng input st = (done, ending) → ending ≠ .returns →
      ∀ updates, .applyBatch updates ∉ done := by
    intro input ending hall hne updates
    rw [(handler_of_ne_returns hall hne).1]
    simp
  cases runner with
  | running input rest ending =>
      cases rest with
      | cons a rest => exact noBatch_underway h
      | nil =>
          cases h with
          | between hidle => exact absurd hidle (List.cons_ne_nil _ _)
          | running hall =>
              rw [List.append_nil] at hall
              refine hfailing hall ?_
              rintro rfl
              exact absurd hnone (List.cons_ne_nil _ _)
  | terminated input =>
      cases h with
      | between hidle => exact absurd hidle (List.cons_ne_nil _ _)
      | terminated hall => exact hfailing hall (by decide)
  | _ =>
      rw [h.eq_nil rfl]
      exact fun _ => List.not_mem_nil

/-- A history of what the process has recorded, with what it has done. Each datagram has
the clock value at which its batch was applied, if it was. -/
structure Accounts (log : List Entry) (s : Process S) (history : History) : Prop where
  inputs : inputs history = processed log ++ applied s.runner
  times : times history = clocks log ++ (applied s.runner).map fun _ => lastClock log
  effects : effectsOf history <+: performed log
  between : s.runner.inFlight = [] → effectsOf history = performed log

/-- The engine, handed what has been recorded, has the same record. -/
theorem accounts_run {st₀ : EngineState S} {log : List Entry} {s : Process S}
    (h : Run (ProcessStep eng) (initial st₀) log s) :
    ∃ history st, Run (Step eng) st₀ history st ∧ st.system_state_ = s.state.system_state_ ∧
      Accounts log s history := by
  obtain ⟨history, st, hrun, htracks⟩ := tracks_run h
  obtain ⟨done, hunderway, hperform, heffects⟩ := htracks.progress
  by_cases happlied : applied s.runner = []
  · have hstate : st.system_state_ = s.state.system_state_ := by
      rw [hperform, system_performAll (noBatch_of_applied hunderway happlied)]
    refine ⟨history, st, hrun, hstate, ?_, ?_, ?_, fun hidle => ?_⟩
    · rw [happlied, List.append_nil]
      exact htracks.inputs
    · rw [happlied, List.map_nil, List.append_nil]
      exact htracks.times
    · rw [heffects]
      exact List.prefix_append _ _
    · exact (htracks.between hidle).2.symm
  · -- the handler has nothing left to do, so it has left what the engine leaves
    obtain ⟨input, hrunner⟩ := eq_of_applied happlied
    rw [hrunner] at hunderway
    cases hunderway with
    | between hidle => exact absurd hidle (List.cons_ne_nil _ _)
    | running hall =>
        rw [List.append_nil] at hall
        obtain ⟨actions, hhandler, hstep⟩ :=
          @handler_of_convertible F _ S eng _ (convertible_of_handler hall) st
        obtain ⟨rfl, -⟩ := Prod.mk.inj (hhandler.symm.trans hall)
        have hmore := hrun.snoc (hstep (lastClock log))
        have hall' : effectsOf (history ++ [((lastClock log, input), effectsIn actions)]) =
            performed log := by
          rw [heffects, effectsOf_append]
          exact congrArg _ (List.append_nil _)
        rw [← hperform] at hmore
        refine ⟨_, _, hmore, rfl, ?_, ?_, hall' ▸ List.prefix_rfl, fun _ => hall'⟩
        · rw [inputs_append, htracks.inputs, hrunner]
          rfl
        · rw [times_append, htracks.times, hrunner]
          rfl

/-- **The record is the history's.** In every run of the process the state store holds,
over what it held at first, the blocks of the datagrams of configurations none of whose
orders was refused, in their order, and the time at which the last of these was
recorded, which is when its batch was applied; the datagram in the handler counts from
its last action on. -/
theorem record_of_history {st₀ : EngineState S} {log : List Entry} {s : Process S}
    (h : Run (ProcessStep eng) (initial st₀) log s) :
    ∃ history st, Run (Step eng) st₀ history st ∧ Accounts log s history ∧
      s.state.system_state_ = replay history st₀.system_state_ := by
  obtain ⟨history, st, hrun, hstate, haccounts⟩ := accounts_run h
  refine ⟨history, st, hrun, haccounts, ?_⟩
  rw [← hstate]
  exact replay_run hrun

/-- Two blocks, both sent. -/
theorem record_of_history_two : ∃ (log : List Entry) (s : Process (List SendResult))
    (history : History) (st : EngineState (List SendResult)),
    received log = [Reference.twoBlocks] ∧
    (engagement s.state.system_state_ 1, engagement s.state.system_state_ 2) =
      (some true, some true) ∧
    Run (Step (Reference.engine [1, 2])) { sender := [] } history st ∧ Accounts log s history ∧
    s.state.system_state_ = replay history {} := by
  obtain ⟨log, s, hrun, -, -, hreceived, -, hview⟩ := @exists_run Float32 _ _
    (Reference.engine [1, 2]) [Reference.twoBlocks] { sender := [] } _
    (fun p => (engagement p.1.system_state_ 1, engagement p.1.system_state_ 2))
    (some true, some true) (List.forall_mem_singleton.mpr receivable_packet) (by decide +kernel)
  obtain ⟨history, st, hengine, haccounts, hrecord⟩ := record_of_history hrun
  exact ⟨log, s, history, st, hreceived, hview, hengine, haccounts, hrecord⟩

/-! ## What depends on it -/

/-- What a datagram records can be seen from the outside. -/
theorem recordedBlocks_eq (now : UInt64) (e : (UInt64 × RawPacket) × List Effect) :
    recordedBlocks e = recordedBlocks ((now, e.1.2), e.2) := rfl

theorem flatMap_recordedBlocks {history history' : History}
    (hinputs : inputs history' = inputs history)
    (heffects : history'.map Prod.snd = history.map Prod.snd) :
    history'.flatMap recordedBlocks = history.flatMap recordedBlocks := by
  have hseen : ∀ history : History, history.flatMap recordedBlocks =
      ((inputs history).zip (history.map Prod.snd)).flatMap
        fun p => recordedBlocks ((0, p.1), p.2) := by
    intro history
    rw [inputs, List.zip_map', List.flatMap_map]
    exact List.flatMap_congr fun e _ => recordedBlocks_eq 0 e
  rw [hseen, hseen, hinputs, heffects]

/-- One datagram, at two times and over two records. -/
theorem indifferent_step {st st' t t' : EngineState S} {i i' : UInt64 × RawPacket}
    {effects effects' : List Effect} (hsender : t.sender = st.sender) (hinput : i'.2 = i.2)
    (h : Step eng st i effects st') (h' : Step eng t i' effects' t') :
    effects' = effects ∧ t'.sender = st'.sender := by
  obtain ⟨r, hr, hprocessed⟩ := processPacket_ok h
  obtain ⟨r', hr', hprocessed'⟩ := processPacket_ok h'
  rw [hinput] at hr' hprocessed'
  obtain rfl : r' = r :=
    Except.ok.inj (hr'.symm.trans ((convert_snapshot _ _).trans hr))
  cases hprocessed with
  | discarded hempty =>
      cases hprocessed' with
      | discarded _ => exact ⟨rfl, hsender⟩
      | acknowledged hne _ => exact absurd hempty hne
      | delivered hne _ => exact absurd hempty hne
  | acknowledged hne hack =>
      cases hprocessed' with
      | discarded hempty => exact absurd hempty hne
      | acknowledged _ _ => exact ⟨rfl, hsender⟩
      | delivered _ hack' => exact absurd (hack.symm.trans hack') (by decide)
  | delivered hne hack =>
      cases hprocessed' with
      | discarded hempty => exact absurd hempty hne
      | acknowledged _ hack' => exact absurd (hack'.symm.trans hack) (by decide)
      | delivered _ _ =>
          rw [hsender]
          exact ⟨rfl, rfl⟩

/-- Two processes, once both have caught up. -/
structure Indifferent (st₀ st₀' : EngineState S) (log log' : List Entry) (s s' : Process S) :
    Prop where
  effects : performed log' = performed log
  sender : s'.state.sender = s.state.sender
  records : ∃ bs : List Block,
    s.state.system_state_.lradStates_ = bs.foldl record st₀.system_state_.lradStates_ ∧
    s'.state.system_state_.lradStates_ = bs.foldl record st₀'.system_state_.lradStates_

/-- **The record is write only.** Take two processes with one routing table and with
senders in the same state, whatever each has recorded at first. When they have received
the same datagrams, and nothing is queued or in flight, they have had the same effects
and recorded the same blocks, whatever the clock has said and however the threads have
taken turns in each. -/
theorem record_is_write_only {st₀ st₀' : EngineState S} {log log' : List Entry}
    {s s' : Process S} (h : Run (ProcessStep eng) (initial st₀) log s)
    (h' : Run (ProcessStep eng) (initial st₀') log' s') (hsender : st₀'.sender = st₀.sender)
    (hreceived : received log' = received log)
    (hidle : s.runner.inFlight = [] ∧ s.ctx.queue = [])
    (hidle' : s'.runner.inFlight = [] ∧ s'.ctx.queue = []) :
    Indifferent st₀ st₀' log log' s s' := by
  obtain ⟨history, st, hrun, hfollows⟩ := follows_run h 0
  obtain ⟨history', st', hrun', hfollows'⟩ := follows_run h' 0
  obtain ⟨hinputs, -, heffects, rfl⟩ := hfollows.between hidle.1
  obtain ⟨hinputs', -, heffects', rfl⟩ := hfollows'.between hidle'.1
  -- all that was received was processed, so the engines were handed the same
  have hposted := hfollows.account.posted
  have hposted' := hfollows'.account.posted
  rw [hfollows.account.inFlight, hidle.1, hidle.2, List.append_nil, List.append_nil] at hposted
  rw [hfollows'.account.inFlight, hidle'.1, hidle'.2, List.append_nil, List.append_nil] at hposted'
  have hsame : inputs history' = inputs history := by
    rw [hinputs, hinputs', ← hposted, ← hposted', hreceived]
  obtain ⟨houtputs, hsenders⟩ := hrun.lockstep Prod.snd Prod.snd
    (fun st t : EngineState S => t.sender = st.sender) hsender
    (fun _ _ _ _ _ _ _ _ hR hkey hs hs' => indifferent_step hR hkey hs hs') hrun' hsame
  refine ⟨?_, hsenders, history.flatMap recordedBlocks, ?_, ?_⟩
  · have hflat : ∀ history : History, effectsOf history = (history.map Prod.snd).flatten :=
      fun history => rfl
    rw [← heffects, ← heffects', hflat, hflat, houtputs]
  · rw [replay_run hrun]
    rfl
  · rw [replay_run hrun', ← flatMap_recordedBlocks hsame houtputs]
    rfl

end

/-- A record of an earlier run. -/
def recorded : EngineState (List SendResult) where
  sender := []
  system_state_ := { lradStates_ := ({} : LradStates).insert 3 {}, lastUpdatedMs_ := 9 }

/-- Two blocks, received over no record and over an old one. -/
theorem record_is_write_only_two : ∃ (log log' : List Entry) (s s' : Process (List SendResult)),
    received log = [Reference.twoBlocks] ∧
    Indifferent { sender := [] } recorded log log' s s' := by
  have hsteps : ∀ now st₀, (processPacket (Reference.engine [1, 2]) now Reference.twoBlocks
      st₀).toOption.map (fun _ => ()) = some () → ∃ log s,
      Run (ProcessStep (Reference.engine [1, 2])) (initial st₀) log s ∧
      received log = [Reference.twoBlocks] ∧ s.runner.inFlight = [] ∧ s.ctx.queue = [] := by
    intro now st₀ hreturns
    obtain ⟨⟨st, effects⟩, hstep, -⟩ := exists_ok_of_map hreturns
    have hengine : Run (Step (Reference.engine [1, 2])) st₀
        [((now, Reference.twoBlocks), effects)] st := Run.single hstep
    obtain ⟨log, s, hrun, hs, hreceived, -⟩ :=
      run_received hengine (List.forall_mem_singleton.mpr receivable_packet)
    refine ⟨log, s, hrun, hreceived, ?_, hs.queue⟩
    rw [hs.runner]
    rfl
  obtain ⟨log, s, hrun, hreceived, hidle⟩ := hsteps 0 { sender := [] } (by decide +kernel)
  obtain ⟨log', s', hrun', hreceived', hidle'⟩ := hsteps 5 recorded (by decide +kernel)
  exact ⟨log, log', s, s', hreceived, record_is_write_only hrun hrun' rfl
    (hreceived'.trans hreceived.symm) hidle hidle'⟩

end CmsProxy.Records
