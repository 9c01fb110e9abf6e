/-
The two threads against one.

Datagrams are received on one thread and processed on another, and a run of the
process is an interleaving of the two. None of that can be seen from outside:
what the process has done is what the engine does when it is handed the same
datagrams one after the other (`process_refines_engine`), and once the delivery
thread has caught up the two have the same behaviours (`quiescent_iff`). The
handler of a datagram does its work in several steps, so in the middle of one the
engine is ahead of the process, by the effects still to come (`remaining`).
-/
import CmsProxy.Shutdown
import CmsProxy.Simulation

set_option autoImplicit false

namespace CmsProxy.Interleaving

open BigEndian Interfaces Converter Orders Engine Answers EventLoop Runs Shutdown
open Main hiding Step
open Receiver hiding Entry

/-! ## Histories -/

/-- What the engine has done: the datagrams, each with its effects. -/
abbrev History := List ((UInt64 × RawPacket) × List Effect)

def inputs (history : History) : List RawPacket := history.map fun e => e.1.2

def effectsOf (history : History) : List Effect := history.flatMap fun e => e.2

theorem inputs_append (history history' : History) :
    inputs (history ++ history') = inputs history ++ inputs history' := List.map_append

theorem effectsOf_append (history history' : History) :
    effectsOf (history ++ history') = effectsOf history ++ effectsOf history' :=
  List.flatMap_append

/-- What a step does to the outside. -/
def performedIn (entry : Entry) : List Effect :=
  match entry.1 with
  | .delivery _ e => effectsIn e.acted
  | _ => []

/-- What the process has done to the outside. -/
def performed (log : List Entry) : List Effect := log.flatMap performedIn

theorem performed_append (log log' : List Entry) :
    performed (log ++ log') = performed log ++ performed log' := List.flatMap_append

theorem performed_single (entry : Entry) : performed [entry] = performedIn entry :=
  List.flatMap_singleton _ _

theorem processed_snoc (log : List Entry) (entry : Entry) :
    processed (log ++ [entry]) = processed log ++ finishedIn entry := by
  rw [processed_append]
  exact congrArg _ (List.flatMap_singleton _ _)

theorem performed_snoc (log : List Entry) (entry : Entry) :
    performed (log ++ [entry]) = performed log ++ performedIn entry := by
  rw [performed_append, performed_single]

/-- The clock at the last action performed, and the clocks at the last actions of the
handlers that have returned, after one more step. -/
def clockStep (t : UInt64 × List UInt64) (entry : Entry) : UInt64 × List UInt64 :=
  match entry.1 with
  | .delivery nowMs (.act _) => (nowMs, t.2)
  | .delivery _ (.finish _) => (t.1, t.2 ++ [t.1])
  | _ => t

/-- The clock at the last action performed. -/
def lastClock (log : List Entry) : UInt64 := (log.foldl clockStep (0, [])).1

/-- The clock values at which the handlers that have returned performed their last actions.
Where a batch is applied, it is the last action. -/
def clocks (log : List Entry) : List UInt64 := (log.foldl clockStep (0, [])).2

/-- When the datagrams of a history were processed. -/
def times (history : History) : List UInt64 := history.map fun e => e.1.1

theorem times_append (history history' : History) :
    times (history ++ history') = times history ++ times history' := List.map_append

theorem clock_snoc (log : List Entry) (entry : Entry) :
    (lastClock (log ++ [entry]), clocks (log ++ [entry])) =
      clockStep (lastClock log, clocks log) entry := by
  rw [lastClock, clocks, List.foldl_append]
  rfl

section

variable {F : Type} [CFloat F] {S : Type} {eng : ProxyEngine F S}

/-! ## Handlers -/

/-- `convert` returns. It does not depend on the snapshot whether it does. -/
def Convertible (rt : Runtime F) (input : RawPacket) : Prop := ∃ r, convert rt input {} = .ok r

/-- A datagram the engine has taken can be converted. -/
theorem convertible_of_step {st st' : EngineState S} {i : UInt64 × RawPacket}
    {effects : List Effect} (h : Step eng st i effects st') : Convertible eng.rt i.2 := by
  obtain ⟨r, hr, -⟩ := processPacket_ok h
  exact ⟨r, (convert_snapshot _ _).trans hr⟩

/-- Where `convert` does not return, neither does `processPacket`. -/
theorem processPacket_error {nowMs : UInt64} {input : RawPacket} {st : EngineState S} {e : Fault}
    (h : convert eng.rt input {} = .error e) : processPacket eng nowMs input st = .error e := by
  rw [processPacket, (convert_snapshot _ _).trans h]
  rfl

/-- The handler of a datagram that can be converted. -/
theorem handler_of_convertible {input : RawPacket} (h : Convertible eng.rt input)
    (st : EngineState S) : ∃ actions, handler eng input st = (actions, .returns) ∧
      ∀ nowMs, Step eng st (nowMs, input) (effectsIn actions) (performAll eng nowMs actions st) := by
  obtain ⟨r, hr⟩ := h
  exact handler_of_convert ((convert_snapshot _ _).trans hr)

/-- The handler of a datagram that cannot. -/
theorem handler_of_error {input : RawPacket} {e : Fault} (h : convert eng.rt input {} = .error e)
    (st : EngineState S) : handler eng input st =
      ([.getSnapshot, .convert], if e = .stillRunning then .hangs else .throws) := by
  rw [handler, processPacket_error h]
  cases e <;> rfl

/-- A handler that returns is one of these. -/
theorem convertible_of_handler {input : RawPacket} {st : EngineState S} {actions : List Action}
    (h : handler eng input st = (actions, .returns)) : Convertible eng.rt input := by
  cases hconvert : convert eng.rt input {} with
  | ok r => exact ⟨r, hconvert⟩
  | error e =>
      rw [handler_of_error hconvert, Prod.mk.injEq] at h
      by_cases he : e = .stillRunning
      · rw [if_pos he] at h
        exact absurd h.2 (by decide)
      · rw [if_neg he] at h
        exact absurd h.2 (by decide)

/-- A handler that throws or hangs has no effect. -/
theorem handler_of_ne_returns {input : RawPacket} {st : EngineState S} {actions : List Action}
    {ending : Ending} (h : handler eng input st = (actions, ending)) (hne : ending ≠ .returns) :
    actions = [.getSnapshot, .convert] ∧ ∃ e, convert eng.rt input {} = .error e ∧
      ending = if e = .stillRunning then .hangs else .throws := by
  cases hconvert : convert eng.rt input {} with
  | ok r =>
      obtain ⟨actions', hhandler, -⟩ := @handler_of_convertible F _ S eng _ ⟨r, hconvert⟩ st
      exact absurd (Prod.mk.inj (h.symm.trans hhandler)).2 hne
  | error e =>
      obtain ⟨rfl, rfl⟩ := Prod.mk.inj (h.symm.trans (handler_of_error hconvert st))
      exact ⟨rfl, e, rfl, rfl⟩

/-! ## Calls of the sender -/

omit [CFloat F] in
/-- What a row of actions leaves of the sender, if its sends are calls of it. -/
theorem sender_performAll {nowMs : UInt64} {actions : List Action} {st : EngineState S} {sender : S}
    (h : Run (SenderStep eng.sender_) st.sender (sendsOf (effectsIn actions)) sender) :
    (performAll eng nowMs actions st).sender = sender := by
  induction actions using List.reverseRecOn generalizing sender with
  | nil => exact h.eq_of_nil.symm
  | append_singleton actions a ih =>
      rw [effectsIn_append, sendsOf_append] at h
      obtain ⟨before, hbefore, hlast⟩ := h.split
      have hih := ih hbefore
      rw [performAll_append]
      cases a with
      | effect e =>
          cases e with
          | send packet host port result =>
              have hcall := Run.of_single hlast
              show (eng.sender_.send packet host port (performAll eng nowMs actions st).sender).2 = _
              rw [hih]
              exact congrArg Prod.snd hcall
          | ack frame => exact hih.trans (Run.eq_of_nil hlast).symm
      | _ => exact hih.trans (Run.eq_of_nil hlast).symm

/-- The sends of a handler are calls of the sender. -/
theorem sends_handler (eng : ProxyEngine F S) (input : RawPacket) (st : EngineState S) :
    ∃ sender, Run (SenderStep eng.sender_) st.sender
      (sendsOf (effectsIn (handler eng input st).1)) sender := by
  cases hconvert : convert eng.rt input {} with
  | ok r =>
      obtain ⟨actions, hhandler, hstep⟩ := @handler_of_convertible F _ S eng _ ⟨r, hconvert⟩ st
      rw [hhandler]
      exact ⟨_, sends_step (hstep 0)⟩
  | error e =>
      rw [handler_of_error hconvert]
      exact ⟨_, .nil⟩

/-- So are those it has performed. -/
theorem sends_underway {st : EngineState S} {runner : Runner RawPacket Action}
    {done : List Action} (h : Underway (fun input => handler eng input st) runner done)
    (nowMs : UInt64) :
    Run (SenderStep eng.sender_) st.sender (sendsOf (effectsIn done))
      (performAll eng nowMs done st).sender := by
  have hprefix : ∀ input rest, (handler eng input st).1 = done ++ rest →
      Run (SenderStep eng.sender_) st.sender (sendsOf (effectsIn done))
        (performAll eng nowMs done st).sender := by
    intro input rest hall
    obtain ⟨sender, hrun⟩ := sends_handler eng input st
    rw [hall, effectsIn_append, sendsOf_append] at hrun
    obtain ⟨before, hbefore, -⟩ := hrun.split
    rw [sender_performAll hbefore]
    exact hbefore
  cases h with
  | between _ => exact .nil
  | @running input _ rest _ hall => exact hprefix input rest (congrArg Prod.fst hall)
  | @terminated input _ hall =>
      exact hprefix input [] ((congrArg Prod.fst hall).trans (List.append_nil _).symm)

/-! ## The process ahead of the engine -/

/-- The engine, handed the datagrams whose handlers have returned, against the process.
What the handler in progress has performed, it has performed on the objects as the
engine left them. -/
structure Tracks (eng : ProxyEngine F S) (log : List Entry) (s : Process S) (history : History)
    (st : EngineState S) : Prop where
  account : Account log s
  inputs : inputs history = processed log
  times : times history = clocks log
  progress : ∃ done, Underway (fun input => handler eng input st) s.runner done ∧
    s.state = performAll eng (lastClock log) done st ∧
    performed log = effectsOf history ++ effectsIn done

/-- A step that neither touches the state nor the datagram in flight. -/
theorem Tracks.silent {log : List Entry} {s s' : Process S} {history : History}
    {st : EngineState S} {entry : Entry} (h : Tracks eng log s history st)
    (haccount : Account (log ++ [entry]) s') (hstate : s'.state = s.state)
    (hfinished : finishedIn entry = []) (hperformed : performedIn entry = [])
    (hclock : ∀ t, clockStep t entry = t)
    (hrunner : s'.runner = s.runner ∨ (s.runner.inFlight = [] ∧ s'.runner.inFlight = [])) :
    Tracks eng (log ++ [entry]) s' history st := by
  obtain ⟨done, hunderway, hperform, heffects⟩ := h.progress
  obtain ⟨hlast, hclocks⟩ := Prod.mk.inj ((clock_snoc log entry).trans (hclock _))
  refine ⟨haccount, ?_, h.times.trans hclocks.symm, done, ?_, ?_, ?_⟩
  · rw [processed_snoc, hfinished, List.append_nil]
    exact h.inputs
  · rcases hrunner with hsame | ⟨hidle, hidle'⟩
    · rw [hsame]
      exact hunderway
    · rw [hunderway.eq_nil hidle]
      exact .between hidle'
  · rw [hstate, hlast]
    exact hperform
  · rw [performed_snoc, hperformed, List.append_nil]
    exact heffects

/-- Between two handlers the objects are as the engine left them. -/
theorem Tracks.between {log : List Entry} {s : Process S} {history : History}
    {st : EngineState S} (h : Tracks eng log s history st) (hidle : s.runner.inFlight = []) :
    s.state = st ∧ performed log = effectsOf history := by
  obtain ⟨done, hunderway, hperform, heffects⟩ := h.progress
  obtain rfl := hunderway.eq_nil hidle
  exact ⟨hperform, heffects.trans (List.append_nil _)⟩

/-- As long as there is an action to come, no batch has been applied. -/
theorem noBatch_underway {st : EngineState S} {input : RawPacket} {a : Action}
    {rest done : List Action} {ending : Ending}
    (h : Underway (fun input => handler eng input st) (.running input (a :: rest) ending) done) :
    ∀ updates, .applyBatch updates ∉ done := by
  intro updates hmem
  cases h with
  | between hidle => exact absurd hidle (List.cons_ne_nil _ _)
  | running hall =>
      have hlast := batchLast_handler eng input st
      rw [hall] at hlast
      refine hlast updates ?_
      rw [List.dropLast_append_cons]
      exact List.mem_append_left _ hmem

/-- An action is performed on what the actions before it have left. The clock is that of
this step: only the last action can be a batch. -/
theorem perform_underway {st : EngineState S} {input : RawPacket} {a : Action}
    {rest done : List Action} {ending : Ending}
    (h : Underway (fun input => handler eng input st) (.running input (a :: rest) ending) done)
    (nowMs nowMs' : UInt64) :
    a.perform eng nowMs (performAll eng nowMs' done st) =
      performAll eng nowMs (done ++ [a]) st := by
  rw [performAll_clock eng (noBatch_underway h) nowMs' nowMs, performAll_append]
  rfl

/-- **One step of the delivery thread** is none of the engine, or it is the end of a
handler, and the engine is handed the datagram. -/
theorem Tracks.delivery {log : List Entry} {s : Process S} {history : History}
    {st : EngineState S} (h : Tracks eng log s history st) {nowMs : UInt64}
    {e : LoopEvent RawPacket Action} {ctx : IoContext RawPacket}
    {runner : Runner RawPacket Action}
    (hloop : LoopStep (fun input => handler eng input s.state) s.ctx s.runner e ctx runner)
    (haccount : Account (log ++ [(.delivery nowMs e, [])])
      { s with ctx := ctx, runner := runner, state := stateAfterEvent eng nowMs s.state e }) :
    ∃ more st', Run (Step eng) st more st' ∧ Tracks eng (log ++ [(.delivery nowMs e, [])])
      { s with ctx := ctx, runner := runner, state := stateAfterEvent eng nowMs s.state e }
      (history ++ more) st' := by
  obtain ⟨done, hunderway, hperform, heffects⟩ := h.progress
  obtain ⟨hlast, hclocks⟩ := Prod.mk.inj (clock_snoc log (.delivery nowMs e, []))
  have hsame : s.runner.inFlight = [] →
      (fun input => handler eng input s.state) = fun input => handler eng input st := by
    intro hidle
    rw [(h.between hidle).1]
  rcases hloop.underway hunderway hsame with ⟨input, rfl, hall, rfl⟩ | ⟨hfinished, hunderway'⟩
  · -- the handler has performed its script, so the engine can be handed the datagram
    obtain ⟨actions, hhandler, hstep⟩ :=
      @handler_of_convertible F _ S eng _ (convertible_of_handler hall) st
    obtain ⟨rfl, -⟩ := Prod.mk.inj (hhandler.symm.trans hall)
    refine ⟨_, _, Run.single (hstep (lastClock log)), haccount, ?_, ?_, [], .between rfl, hperform,
      ?_⟩
    · rw [inputs_append, h.inputs, processed_snoc]
      rfl
    · rw [times_append, h.times, hclocks]
      rfl
    · rw [performed_snoc, heffects, effectsOf_append]
      simp [effectsOf, performedIn, LoopEvent.acted, effectsIn]
  · refine ⟨[], st, .nil, haccount, ?_, ?_, done ++ e.acted, hunderway', ?_, ?_⟩
    · rw [List.append_nil, h.inputs, processed_snoc]
      show processed log = processed log ++ e.finished
      rw [hfinished, List.append_nil]
    · rw [List.append_nil, h.times, hclocks]
      cases e with
      | finish input => exact absurd hfinished (List.cons_ne_nil _ _)
      | _ => rfl
    · cases e with
      | act a =>
          obtain ⟨input, rest, ending, hrunner⟩ := hloop.of_act
          rw [hrunner] at hunderway
          rw [hlast]
          show a.perform eng nowMs s.state = _
          rw [hperform]
          exact perform_underway hunderway nowMs (lastClock log)
      | finish input => exact absurd hfinished (List.cons_ne_nil _ _)
      | _ =>
          rw [hlast]
          show s.state = performAll eng (lastClock log) (done ++ []) st
          rw [List.append_nil]
          exact hperform
    · rw [performed_snoc, heffects, List.append_nil, effectsIn_append, List.append_assoc]
      rfl

/-! ## The datagram in progress -/

/-- The engine has been handed these datagrams. -/
theorem tracks_step {log : List Entry} {s s' : Process S} {l : Label} {events : List Event}
    {history : History} {st : EngineState S} (h : Tracks eng log s history st)
    (hstep : ProcessStep eng s l events s') :
    ∃ more st', Run (Step eng) st more st' ∧
      Tracks eng (log ++ [(l, events)]) s' (history ++ more) st' := by
  have haccount := account_step h.account hstep
  have hphase := h.account.inv.phase
  obtain ⟨-, hcases⟩ := hstep
  cases hcases with
  | delivery hloop => exact h.delivery hloop haccount
  | @construct l rest hpc =>
      rw [hpc] at hphase
      have hidle := hphase.2.2
      refine ⟨[], st, .nil, ?_⟩
      rw [List.append_nil]
      have hstate : (s.construct l rest).state = s.state := by cases l <;> rfl
      exact h.silent haccount hstate rfl rfl (fun _ => rfl)
        (Or.inr ⟨hidle.inFlight, (Quiet.construct l rest hidle).inFlight⟩)
  | @destroy exit l rest _ _ _ =>
      refine ⟨[], st, .nil, ?_⟩
      rw [List.append_nil]
      have hstate : (s.destroy l rest).state = s.state := by cases l <;> rfl
      exact h.silent haccount hstate rfl rfl (fun _ => rfl)
        (Or.inl (destroy_frame s l rest).2.2.1)
  | _ =>
      -- the other steps of the main thread
      refine ⟨[], st, .nil, ?_⟩
      rw [List.append_nil]
      exact h.silent haccount rfl rfl rfl (fun _ => rfl) (Or.inl rfl)

theorem tracks_run {st₀ : EngineState S} {log : List Entry} {s : Process S}
    (h : Run (ProcessStep eng) (initial st₀) log s) :
    ∃ history st, Run (Step eng) st₀ history st ∧ Tracks eng log s history st := by
  refine h.simulates (Tracks eng) ?_ fun _ _ _ _ _ _ _ htracks hstep => tracks_step htracks hstep
  exact ⟨@account_run F _ S eng st₀ _ _ .nil, rfl, rfl, [], .between rfl, rfl, rfl⟩

/-- **Calls.** In every run, what the process has sent is the calls its sender was given,
in their order, each with the result it returned. -/
theorem sends_process {st₀ : EngineState S} {log : List Entry} {s : Process S}
    (h : Run (ProcessStep eng) (initial st₀) log s) :
    Run (SenderStep eng.sender_) st₀.sender (sendsOf (performed log)) s.state.sender := by
  obtain ⟨history, st, hrun, htracks⟩ := tracks_run h
  obtain ⟨done, hunderway, hperform, heffects⟩ := htracks.progress
  rw [heffects, sendsOf_append, hperform]
  exact (sends_run hrun).append (sends_underway hunderway (lastClock log))

/-! ## The engine ahead of the process -/

/-- The datagram in the handler, when the handler is going to return. -/
def taken : Runner RawPacket Action → List RawPacket
  | .running h _ .returns => [h]
  | _ => []

/-- What the handler is still going to do to the outside. -/
def remaining : Runner RawPacket Action → List Effect
  | .running _ rest _ => effectsIn rest
  | _ => []

/-- The objects as the handler is going to leave them, if it applies its batch at the
clock value `nowMs`. -/
def settled (eng : ProxyEngine F S) (nowMs : UInt64) (runner : Runner RawPacket Action)
    (st : EngineState S) : EngineState S :=
  match runner with
  | .running _ rest _ => performAll eng nowMs rest st
  | _ => st

/-- A handler that does not return is that of a datagram that is not converted. -/
def Failing (rt : Runtime F) : Runner RawPacket Action → Prop
  | .running h _ .hangs => convert rt h {} = .error .stillRunning
  | .running h _ .throws => ∃ e ≠ .stillRunning, convert rt h {} = .error e
  | .terminated h => ∃ e ≠ .stillRunning, convert rt h {} = .error e
  | _ => True

/-- Between two handlers there is nothing ahead. -/
theorem ahead_of_idle {runner : Runner RawPacket Action} (h : runner.inFlight = []) :
    taken runner = [] ∧ remaining runner = [] ∧ ∀ rt : Runtime F, Failing rt runner := by
  cases runner with
  | running _ _ _ => exact absurd h (List.cons_ne_nil _ _)
  | terminated _ => exact absurd h (List.cons_ne_nil _ _)
  | _ => exact ⟨rfl, rfl, fun _ => trivial⟩

omit [CFloat F] in
theorem settled_of_idle {nowMs : UInt64} {runner : Runner RawPacket Action} {st : EngineState S}
    (h : runner.inFlight = []) : settled eng nowMs runner st = st := by
  cases runner with
  | running _ _ _ => exact absurd h (List.cons_ne_nil _ _)
  | _ => rfl

/-- What is taken is in flight. -/
theorem taken_prefix_inFlight (runner : Runner RawPacket Action) :
    taken runner <+: runner.inFlight := by
  cases runner with
  | running h rest ending => cases ending <;> simp [taken, Runner.inFlight]
  | _ => exact List.nil_prefix

/-- The engine, handed the datagram in the handler as well. If the handler has still to
apply its batch, it will at the clock value `nowMs`. -/
structure Follows (eng : ProxyEngine F S) (nowMs : UInt64) (log : List Entry) (s : Process S)
    (history : History) (st : EngineState S) : Prop where
  account : Account log s
  inputs : inputs history = processed log ++ taken s.runner
  effects : effectsOf history = performed log ++ remaining s.runner
  settles : settled eng nowMs s.runner s.state = st
  failing : Failing eng.rt s.runner
  between : s.runner.inFlight = [] → Interleaving.inputs history = processed log ∧
    times history = clocks log ∧ effectsOf history = performed log ∧ s.state = st

/-- The engine can be handed the datagram in a handler that is going to return. -/
theorem follows_of_running {log : List Entry} {s : Process S} {history : History}
    {st : EngineState S} (h : Tracks eng log s history st) {input : RawPacket} {rest : List Action}
    (hrunner : s.runner = .running input rest .returns) (nowMs : UInt64) :
    ∃ more st', Run (Step eng) st more st' ∧ Follows eng nowMs log s (history ++ more) st' := by
  obtain ⟨done, hunderway, hperform, heffects⟩ := h.progress
  rw [hrunner] at hunderway
  cases hunderway with
  | between hidle => exact absurd hidle (List.cons_ne_nil _ _)
  | running hall =>
      obtain ⟨actions, hhandler, hstep⟩ := handler_of_convertible (convertible_of_handler hall) st
      obtain ⟨rfl, -⟩ := Prod.mk.inj (hhandler.symm.trans hall)
      -- the clock at which the handler performs its last action, or will
      obtain ⟨clock, hclock⟩ : ∃ clock, performAll eng nowMs rest s.state =
          performAll eng clock (done ++ rest) st := by
        cases rest with
        | nil => exact ⟨lastClock log, by rw [List.append_nil]; exact hperform⟩
        | cons a rest =>
            refine ⟨nowMs, ?_⟩
            rw [hperform, performAll_append,
              performAll_clock eng (noBatch_underway (.running hall)) (lastClock log) nowMs]
      refine ⟨_, _, Run.single (hstep clock), h.account, ?_, ?_, ?_, ?_, fun hidle => ?_⟩
      · rw [inputs_append, h.inputs, hrunner]
        rfl
      · rw [effectsOf_append, hrunner, heffects, List.append_assoc, remaining,
          ← effectsIn_append]
        exact congrArg _ (List.append_nil _)
      · rw [hrunner]
        exact hclock
      · rw [hrunner]
        trivial
      · rw [hrunner] at hidle
        exact absurd hidle (List.cons_ne_nil _ _)

/-- A handler that throws or hangs has no effect, and leaves everything as it was. -/
theorem follows_of_failing {log : List Entry} {s : Process S} {history : History}
    {st : EngineState S} (h : Tracks eng log s history st) {done rest : List Action}
    (hperform : s.state = performAll eng (lastClock log) done st)
    (heffects : performed log = effectsOf history ++ effectsIn done)
    (hscript : done ++ rest = [.getSnapshot, .convert]) (htaken : taken s.runner = [])
    (hremaining : remaining s.runner = effectsIn rest)
    (hsettled : ∀ nowMs, settled eng nowMs s.runner s.state = performAll eng nowMs rest s.state)
    (hfailing : Failing eng.rt s.runner) (hbusy : s.runner.inFlight ≠ []) (nowMs : UInt64) :
    Follows eng nowMs log s history st := by
  refine ⟨h.account, ?_, ?_, ?_, hfailing, fun hidle => absurd hidle hbusy⟩
  · rw [htaken, List.append_nil]
    exact h.inputs
  · rw [hremaining, heffects, List.append_assoc, ← effectsIn_append, hscript]
    exact (List.append_nil _).symm
  · have hnone : ∀ updates, .applyBatch updates ∉ done := by
      intro updates hmem
      have hall : Action.applyBatch updates ∈ done ++ rest := List.mem_append_left _ hmem
      rw [hscript] at hall
      simp at hall
    rw [hsettled, hperform, performAll_clock eng hnone (lastClock log) nowMs,
      ← performAll_append, hscript]
    rfl

/-- The engine can be handed the datagram in the handler at once. -/
theorem follows_of_tracks {log : List Entry} {s : Process S} {history : History}
    {st : EngineState S} (h : Tracks eng log s history st) (nowMs : UInt64) :
    ∃ more st', Run (Step eng) st more st' ∧ Follows eng nowMs log s (history ++ more) st' := by
  by_cases hidle : s.runner.inFlight = []
  · -- there is none
    obtain ⟨hstate, hperformed⟩ := h.between hidle
    obtain ⟨htaken, hremaining, hfailing⟩ := ahead_of_idle (F := F) hidle
    refine ⟨[], st, .nil, h.account, ?_, ?_, ?_, hfailing _, fun _ => ?_⟩
    · rw [htaken, List.append_nil, List.append_nil]
      exact h.inputs
    · rw [hremaining, List.append_nil, List.append_nil]
      exact hperformed.symm
    · rw [settled_of_idle hidle]
      exact hstate
    · rw [List.append_nil]
      exact ⟨h.inputs, h.times, hperformed.symm, hstate⟩
  obtain ⟨done, hunderway, hperform, heffects⟩ := h.progress
  cases hrunner : s.runner with
  | running input rest ending =>
      by_cases hreturns : ending = .returns
      · exact follows_of_running h (hreturns ▸ hrunner) nowMs
      · rw [hrunner] at hunderway
        cases hunderway with
        | between hidle => exact absurd hidle (List.cons_ne_nil _ _)
        | running hall =>
            obtain ⟨hscript, e, he, hending⟩ := handler_of_ne_returns hall hreturns
            refine ⟨[], st, .nil, ?_⟩
            rw [List.append_nil]
            refine follows_of_failing h hperform heffects hscript ?_ ?_ ?_ ?_ hidle nowMs
            · rw [hrunner]
              cases ending <;> first | exact absurd rfl hreturns | rfl
            · rw [hrunner]
              rfl
            · rw [hrunner]
              exact fun _ => rfl
            · rw [hrunner]
              by_cases hhangs : e = .stillRunning
              · subst hhangs
                rw [hending, if_pos rfl]
                exact he
              · rw [hending, if_neg hhangs]
                exact ⟨e, hhangs, he⟩
  | terminated input =>
      rw [hrunner] at hunderway
      cases hunderway with
      | between hidle => exact absurd hidle (List.cons_ne_nil _ _)
      | terminated hall =>
          obtain ⟨hscript, e, he, hending⟩ := handler_of_ne_returns hall (by decide)
          refine ⟨[], st, .nil, ?_⟩
          rw [List.append_nil]
          refine follows_of_failing h hperform heffects ((List.append_nil done).trans hscript)
            ?_ ?_ ?_ ?_ hidle nowMs
          · rw [hrunner]
            rfl
          · rw [hrunner]
            rfl
          · rw [hrunner]
            exact fun _ => rfl
          · rw [hrunner]
            refine ⟨e, fun hhangs => ?_, he⟩
            rw [if_pos hhangs] at hending
            exact absurd hending (by decide)
  | _ =>
      rw [hrunner] at hidle
      exact absurd rfl hidle

theorem follows_run {st₀ : EngineState S} {log : List Entry} {s : Process S}
    (h : Run (ProcessStep eng) (initial st₀) log s) (nowMs : UInt64) :
    ∃ history st, Run (Step eng) st₀ history st ∧ Follows eng nowMs log s history st := by
  obtain ⟨history, st, hrun, htracks⟩ := tracks_run h
  obtain ⟨more, st', hmore, hfollows⟩ := follows_of_tracks htracks nowMs
  exact ⟨_, st', hrun.append hmore, hfollows⟩

/-! ## The refinement -/

/-- The process has done what the engine does with these datagrams, up to what the
handler in progress has still to do: it has still to have these effects, and if it is to
apply its batch at the clock value `nowMs`, it leaves what the engine leaves. -/
structure Refines (eng : ProxyEngine F S) (st₀ : EngineState S) (nowMs : UInt64)
    (log : List Entry) (s : Process S) (history : History) (st : EngineState S) : Prop where
  run : Run (Step eng) st₀ history st
  inOrder : inputs history <+: received log
  processed : inputs history = processed log ++ taken s.runner
  performed : effectsOf history = performed log ++ remaining s.runner
  settles : settled eng nowMs s.runner s.state = st
  sends : Run (SenderStep eng.sender_) st₀.sender (sendsOf (Interleaving.performed log))
    s.state.sender
  between : s.runner.inFlight = [] →
    Interleaving.inputs history = Shutdown.processed log ∧ times history = clocks log ∧
      effectsOf history = Interleaving.performed log ∧ s.state = st

/-- **Interleaving is invisible.** In every run of the two threads the datagrams
are processed in the order of reception and one at a time: what the process has
done is what the engine does when it is handed them one after the other, short of
what the current handler has still to do. Once that is done, whenever it is, and
whenever no handler is running, the objects are as the engine leaves them; and at
any time, what has been sent is the calls the sender was given, with its results. -/
theorem process_refines_engine {st₀ : EngineState S} {log : List Entry} {s : Process S}
    (h : Run (ProcessStep eng) (initial st₀) log s) (nowMs : UInt64) :
    ∃ history st, Refines eng st₀ nowMs log s history st := by
  obtain ⟨history, st, hrun, hfollows⟩ := follows_run h nowMs
  refine ⟨history, st, hrun, ?_, hfollows.inputs, hfollows.effects, hfollows.settles,
    sends_process h, hfollows.between⟩
  -- what is taken is in flight, and what is in flight has been received
  have hreceived := hfollows.account.posted
  rw [hfollows.account.inFlight, List.append_assoc] at hreceived
  rw [hfollows.inputs, hreceived, List.prefix_append_right_inj]
  exact (taken_prefix_inFlight s.runner).trans (List.prefix_append _ _)

/-! ## The same behaviours -/

/-- What the process receives is receivable. -/
theorem receivable_of_received {s₀ s : Process S} {log : List Entry}
    (h : Run (ProcessStep eng) s₀ log s) : ∀ input ∈ received log, Receivable input := by
  have hevents : ∀ entry ∈ log, ∀ input ∈ packetsOf entry.2, Receivable input := by
    apply h.forall_mem (fun _ => True)
      (fun _ events => ∀ input ∈ packetsOf events, Receivable input) trivial
    rintro s l events s' - ⟨-, hstep⟩
    refine ⟨trivial, fun input hinput => ?_⟩
    cases hstep with
    | @completion c _ _ _ hcomplete =>
        obtain ⟨-, -, -, hinvocations⟩ := complete_cases hcomplete
        rw [packetsOf, hinvocations] at hinput
        obtain ⟨invoked, hinvoked, rfl⟩ := List.mem_map.mp hinput
        -- the callback is invoked with what the socket has written into the buffer
        have hasked : c.asksFor = some invoked := by
          split_ifs at hinvoked
          · exact Option.mem_toList.mp hinvoked
          · exact absurd hinvoked List.not_mem_nil
        rw [Completion.asksFor] at hasked
        split_ifs at hasked
        rw [← Option.some.inj hasked]
        exact ⟨rfl, c.fits⟩
    | _ => exact absurd hinput List.not_mem_nil
  intro input hinput
  obtain ⟨entry, hentry, hmem⟩ := List.mem_flatMap.mp hinput
  exact hevents entry hentry input hmem

/-- The process comes up. -/
theorem receiving_initial (eng : ProxyEngine F S) (st₀ : EngineState S) : ∃ log s,
    Run (ProcessStep eng) (initial st₀) log s ∧ Receiving s st₀ [] ∧ received log = [] ∧
      performed log = [] := by
  obtain ⟨s, hrun, hs⟩ := run_startup eng st₀
  exact ⟨_, s, hrun.mono fun _ _ _ _ h => h.1, hs, rfl, rfl⟩

/-- What is seen of the steps of a handler. -/
theorem seen_acting (nowMs : UInt64) (actions : List Action) :
    received (acting nowMs actions) = [] ∧ performed (acting nowMs actions) = effectsIn actions := by
  induction actions with
  | nil => exact ⟨rfl, rfl⟩
  | cons a actions ih =>
      have hcons : acting nowMs (a :: actions) =
          [(.delivery nowMs (.act a), [])] ++ acting nowMs actions := rfl
      have hfirst : effectsIn (a :: actions) = effectsIn [a] ++ effectsIn actions :=
        effectsIn_append [a] actions
      rw [hcons, received_append, performed_append, ih.1, ih.2, hfirst, performed_single]
      exact ⟨rfl, rfl⟩

/-- One datagram is received and processed, before anything else happens. -/
theorem receiving_step {s : Process S} {st st' : EngineState S} {i : UInt64 × RawPacket}
    {effects : List Effect} (hreceiving : Receiving s st []) (hstep : Step eng st i effects st')
    (hinput : Receivable i.2) :
    ∃ more s', Run (ProcessStep eng) s more s' ∧ Receiving s' st' [] ∧ received more = [i.2] ∧
      performed more = effects := by
  obtain ⟨c, events, s₁, hcomplete, hs₁, hpackets⟩ :=
    @Receiving.receive F _ S eng s _ _ hreceiving i.2 hinput
  -- the delivery thread takes it off the queue, and performs its handler
  obtain ⟨actions, hhandler, hsteps⟩ :=
    handler_of_convertible (convertible_of_step hstep) st
  obtain ⟨rfl, rfl⟩ := Prod.mk.inj (Except.ok.inj (hstep.symm.trans (hsteps i.1)))
  have hstart := @Receiving.start F _ S eng s₁ _ _ _ hs₁ i.1
  rw [hhandler] at hstart
  have hhandled := @run_handler F _ S eng
    { s₁ with ctx := { s₁.ctx with queue := [] }, runner := .running i.2 actions .returns }
    i.2 actions rfl i.1
  have hrun := (((Run.single hcomplete).snoc hstart).append hhandled).mono fun _ _ _ _ h => h.1
  obtain ⟨hsilent, hperformed⟩ := seen_acting i.1 actions
  refine ⟨_, _, hrun, ⟨hs₁.pc, hs₁.alive, hs₁.callback, hs₁.pending, hs₁.running, rfl, rfl,
    congrArg (performAll eng i.1 actions) hs₁.state⟩, ?_, ?_⟩
  · simp only [received_append, hsilent]
    show packetsOf events ++ [] ++ [] ++ ([] ++ []) = [i.2]
    rw [hpackets]
    rfl
  · simp only [performed_append, hperformed]
    exact List.append_nil _

/-- What the engine does, the process can do: datagram by datagram, each processed before
the next is received. -/
theorem run_received {st₀ st : EngineState S} {history : History}
    (h : Run (Step eng) st₀ history st) (hinputs : ∀ input ∈ inputs history, Receivable input) :
    ∃ log s, Run (ProcessStep eng) (initial st₀) log s ∧ Receiving s st [] ∧
      received log = inputs history ∧ performed log = effectsOf history := by
  revert hinputs
  refine h.history (fun history st => (∀ input ∈ inputs history, Receivable input) →
    ∃ log s, Run (ProcessStep eng) (initial st₀) log s ∧ Receiving s st [] ∧
      received log = inputs history ∧ performed log = effectsOf history)
    (fun _ => receiving_initial eng st₀) ?_
  intro history st i effects st' ih hstep hall
  rw [inputs_append, List.forall_mem_append] at hall
  obtain ⟨log, s, hlog, hs, hreceived, hperformed⟩ := ih hall.1
  obtain ⟨more, s', hmore, hs', hreceived', hperformed'⟩ :=
    receiving_step hs hstep (hall.2 i.2 (List.mem_singleton_self _))
  refine ⟨_, s', hlog.append hmore, hs', ?_, ?_⟩
  · rw [received_append, hreceived, hreceived', inputs_append]
    rfl
  · rw [performed_append, hperformed, hperformed', effectsOf_append]
    exact congrArg _ (List.append_nil _).symm

/-- All that was received has been processed. -/
theorem processed_of_receiving {st₀ st : EngineState S} {log : List Entry} {s : Process S}
    (hs : Receiving s st []) (h : Run (ProcessStep eng) (initial st₀) log s) :
    processed log = received log := by
  have haccount := account_run h
  have hposted := haccount.posted
  have hflight := haccount.inFlight
  rw [hs.queue, List.append_nil] at hposted
  rw [hs.runner] at hflight
  rw [hposted, hflight]
  exact (List.append_nil _).symm

/-- What is seen of a run in which these datagrams are received, and processed one by one. -/
theorem exists_run {ins : List RawPacket} {st₀ : EngineState S} {α : Type}
    {view : EngineState S × List Effect → α} {a : α} (hinputs : ∀ input ∈ ins, Receivable input)
    (h : (Reference.processAll eng ins st₀).toOption.map view = some a) :
    ∃ log s, Run (ProcessStep eng) (initial st₀) log s ∧ s.runner = .idle ∧ s.ctx.queue = [] ∧
      received log = ins ∧ processed log = ins ∧ view (s.state, performed log) = a := by
  obtain ⟨⟨st, effects⟩, hall, hview⟩ := exists_ok_of_map h
  obtain ⟨history, hrun, rfl, rfl⟩ := Reference.run_processAll hall
  obtain ⟨log, s, hlog, hs, hreceived, hperformed⟩ := run_received hrun hinputs
  refine ⟨log, s, hlog, hs.runner, hs.queue, hreceived,
    (processed_of_receiving hs hlog).trans hreceived, ?_⟩
  rw [hs.state, hperformed]
  exact hview

/-- What the process can have received and done, and the state it can have come to,
by the time the delivery thread has caught up. -/
structure Quiescent (eng : ProxyEngine F S) (st₀ : EngineState S) (ins : List RawPacket)
    (effects : List Effect) (st : EngineState S) : Prop where
  reached : ∃ log s, Run (ProcessStep eng) (initial st₀) log s ∧ s.runner.inFlight = [] ∧
    s.ctx.queue = [] ∧ received log = ins ∧ performed log = effects ∧ s.state = st

/-- **The same behaviours.** The process can have received these datagrams and, once
nothing is queued or in flight, have had these effects and this state, if and only
if the engine has them when it is handed the datagrams one by one. -/
theorem quiescent_iff (eng : ProxyEngine F S) (st₀ : EngineState S) (ins : List RawPacket)
    (effects : List Effect) (st : EngineState S) :
    Quiescent eng st₀ ins effects st ↔ (∀ input ∈ ins, Receivable input) ∧
      ∃ history, Run (Step eng) st₀ history st ∧ inputs history = ins ∧
        effectsOf history = effects := by
  constructor
  · rintro ⟨log, s, hrun, hidle, hempty, rfl, rfl, rfl⟩
    refine ⟨receivable_of_received hrun, ?_⟩
    obtain ⟨history, st, hengine, hfollows⟩ := follows_run hrun 0
    obtain ⟨hinputs, -, heffects, rfl⟩ := hfollows.between hidle
    have haccount := hfollows.account
    refine ⟨history, hengine, ?_, heffects⟩
    rw [haccount.posted, haccount.inFlight, hidle, hempty, List.append_nil, List.append_nil]
    exact hinputs
  · rintro ⟨hreceivable, history, hrun, rfl, rfl⟩
    obtain ⟨log, s, hlog, hs, hreceived, hperformed⟩ := run_received hrun hreceivable
    refine ⟨log, s, hlog, ?_, hs.queue, hreceived, hperformed, hs.state⟩
    rw [hs.runner]
    rfl

end

/-! ## One run -/

/-- The handler of a datagram has been started, and has three effects to come. -/
theorem process_refines_engine_started : ∃ log s history st,
    s.runner.inFlight = [packet] ∧ (remaining s.runner).length = 3 ∧
    Refines (Reference.engine [1]) objects 5 log s history st := by
  obtain ⟨log, s, hrun, -, -, -, -, -, rest, hhandler, hrunner⟩ := one_started
  obtain ⟨history, st, hrefines⟩ := process_refines_engine (hrun.mono fun _ _ _ _ h => h.1) 5
  have hlength : (effectsIn (handler (Reference.engine [1]) packet objects).1).length = 3 := by
    decide
  refine ⟨log, s, history, st, ?_, ?_, hrefines⟩
  · rw [hrunner]
    rfl
  · rw [hrunner]
    rwa [hhandler] at hlength

end CmsProxy.Interleaving
