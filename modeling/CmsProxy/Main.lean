/-
`main.cpp`: two threads, and the objects they share.

The main thread executes the declarations of the `try` block in their order, runs
the receive loop, and when that returns releases the work guard and stops the
delivery loop. Leaving the block, at its end or by an exception, destroys the
objects in reverse order of their declaration, and the destructor of
`delivery_thread` waits for the thread to end. Meanwhile that thread runs
`processPacket` for one datagram after the other. A step is a step of one of the
two, so a run is an interleaving. `processPacket` takes many steps; each of them has
the objects it uses (`Action.uses`) and what it changes (`Action.perform`). The steps
go on after an object has been destroyed, as those of the program do: that none of
them then uses it is a question, not a rule.

The configuration is read before the first of these objects is declared, and is
left out, as is `set_unicast_target`, which stores a name.
-/
import CmsProxy.Answers
import CmsProxy.EventLoop
import CmsProxy.Receiver

set_option autoImplicit false

namespace CmsProxy.Main

open BigEndian Interfaces Converter Engine Answers EventLoop Receiver Runs

/-! ## The handler of a datagram -/

/-- The objects declared in the `try` block that have a destructor of interest. -/
inductive Local where
  | rx_io_ctx
  | delivery_io_ctx
  | delivery_work_guard
  | delivery_thread
  | receiver
  | sender
  | converter
  | system_state
  | ack_sender
  | engine
  deriving DecidableEq

/-- The order of their declarations. -/
def declarations : List Local :=
  [.rx_io_ctx, .delivery_io_ctx, .delivery_work_guard, .delivery_thread, .receiver, .sender,
    .converter, .system_state, .ack_sender, .engine]

/-- A step of `processPacket` that uses an object behind one of its pointers. -/
inductive Action where
  | getSnapshot
  | convert
  | effect (e : Effect)
  | applyBatch (updates : List StateUpdate)

/-- The objects an action uses: the engine itself, and one of its components. -/
def Action.uses : Action → List Local
  | .getSnapshot => [.engine, .system_state]
  | .convert => [.engine, .converter]
  | .effect (.send _ _ _ _) => [.engine, .sender]
  | .effect (.ack _) => [.engine, .ack_sender]
  | .applyBatch _ => [.engine, .system_state]

section

variable {F : Type} [CFloat F] {S : Type}

/-- The objects after an action, which is performed at the clock value `nowMs`. -/
def Action.perform (eng : ProxyEngine F S) (nowMs : UInt64) (st : EngineState S) :
    Action → EngineState S
  | .effect (.send packet host port _) =>
      { st with sender := (eng.sender_.send packet host port st.sender).2 }
  | .applyBatch updates =>
      { st with system_state_ := st.system_state_.applyBatch nowMs updates }
  | _ => st

/-- The call of `applyBatch` that `processPacket` ends with, if it does. -/
def batch (eng : ProxyEngine F S) (input : RawPacket) (st : EngineState S) : List Action :=
  match Converter.convert eng.rt input st.system_state_.getSnapshot with
  | .ok r =>
      if !r.packets.isEmpty && !r.ack_only && (outcomes eng r.packets st.sender).all (·.success)
          && !r.state_updates.isEmpty then
        [.applyBatch r.state_updates]
      else []
  | .error _ => []

/-- The handler of a datagram: its actions, and its end. An exception of `convert`
leaves the handler. What the sends return is worked out ahead, since nobody else uses
the sender; the clock makes no difference to the actions. -/
def handler (eng : ProxyEngine F S) (input : RawPacket) (st : EngineState S) :
    List Action × Ending :=
  match processPacket eng 0 input st with
  | .ok (_, effects) =>
      (.getSnapshot :: .convert :: effects.map Action.effect ++ batch eng input st, .returns)
  | .error .stillRunning => ([.getSnapshot, .convert], .hangs)
  | .error _ => ([.getSnapshot, .convert], .throws)

/-! ## The process -/

/-- Where an exception is thrown. -/
inductive Point where
  | construct (l : Local)
  | engine_run
  | rx_run
  deriving DecidableEq

/-- How the `try` block is left. -/
inductive Exit where
  | orderly
  | thrown (p : Point)
  deriving DecidableEq

/-- What `main` returns. -/
def Exit.code : Exit → ℕ
  | .orderly => 0
  | .thrown _ => 1

/-- Where the main thread is. -/
inductive MainPc where
  /-- At the declarations of `rest`; when there are none, at `engine.run()`. -/
  | constructing (rest : List Local)
  /-- In `rx_io_ctx.run()`. -/
  | receiving
  /-- At `delivery_work_guard.reset()`. -/
  | resetting
  /-- At `delivery_io_ctx.stop()`. -/
  | stopping
  /-- At the destructor of the youngest object alive. -/
  | leaving (exit : Exit)
  | returned (exit : Exit)
  deriving DecidableEq

/-- The process. -/
structure Process (S : Type) where
  pc : MainPc := .constructing declarations
  /-- The objects alive, the youngest first. -/
  alive : List Local := []
  rx : UdpMulticastReceiver := {}
  ctx : IoContext RawPacket := {}
  runner : Runner RawPacket Action := .notStarted
  /-- The sender and the system state. -/
  state : EngineState S

/-- The packets the callback was invoked with. -/
def packetsOf (events : List Event) : List RawPacket :=
  (events.filterMap invocation).map Prod.fst

/-- A declaration is executed. The engine's constructor sets the callback. -/
def Process.construct (l : Local) (rest : List Local) (s : Process S) : Process S :=
  let s := { s with pc := .constructing rest, alive := l :: s.alive }
  match l with
  | .delivery_work_guard => { s with ctx := s.ctx.setGuard true }
  | .delivery_thread => { s with runner := .idle }
  | .engine => { s with rx := s.rx.set_callback }
  | _ => s

/-- The youngest object is destroyed. The guard's destructor releases it. -/
def Process.destroy (l : Local) (rest : List Local) (s : Process S) : Process S :=
  let s := { s with alive := rest }
  match l with
  | .delivery_work_guard => { s with ctx := s.ctx.setGuard false }
  | _ => s

/-- The steps of the two threads. -/
inductive Label where
  | construct (l : Local)
  | throws
  | engine_run
  | completion (c : Completion)
  | rx_returns
  | reset
  | stop
  | destroy (l : Local)
  | returns
  | delivery (nowMs : UInt64) (e : LoopEvent RawPacket Action)

/-- The objects after a step of the delivery thread. -/
def stateAfterEvent (eng : ProxyEngine F S) (nowMs : UInt64) (st : EngineState S) :
    LoopEvent RawPacket Action → EngineState S
  | .act a => a.perform eng nowMs st
  | _ => st

/-- A step, and the events of the receiver in it. -/
inductive Step (eng : ProxyEngine F S) : Process S → Label → List Event → Process S → Prop
  | construct {s : Process S} {l : Local} {rest : List Local} :
      s.pc = .constructing (l :: rest) → Step eng s (.construct l) [] (s.construct l rest)
  | construct_throws {s : Process S} {l : Local} {rest : List Local} :
      s.pc = .constructing (l :: rest) →
      Step eng s .throws [] { s with pc := .leaving (.thrown (.construct l)) }
  | engine_run {s : Process S} :
      s.pc = .constructing [] →
      Step eng s .engine_run [] { s with pc := .receiving, rx := s.rx.start }
  | engine_run_throws {s : Process S} :
      s.pc = .constructing [] →
      Step eng s .throws [] { s with pc := .leaving (.thrown .engine_run) }
  /-- The callback posts the datagrams it is invoked with. -/
  | completion {s : Process S} {c : Completion} {events : List Event}
      {rx : UdpMulticastReceiver} :
      s.pc = .receiving → ReceiveStep eng.rt.asio s.rx c events rx →
      Step eng s (.completion c) events { s with rx := rx, ctx := s.ctx.post (packetsOf events) }
  | rx_throws {s : Process S} :
      s.pc = .receiving → Step eng s .throws [] { s with pc := .leaving (.thrown .rx_run) }
  /-- `rx_io_ctx.run()` returns when it has nothing left to wait for. -/
  | rx_returns {s : Process S} :
      s.pc = .receiving → s.rx.pending = 0 →
      Step eng s .rx_returns [] { s with pc := .resetting }
  | reset {s : Process S} :
      s.pc = .resetting →
      Step eng s .reset [] { s with pc := .stopping, ctx := s.ctx.setGuard false }
  | stop {s : Process S} :
      s.pc = .stopping →
      Step eng s .stop [] { s with pc := .leaving .orderly, ctx := s.ctx.stop }
  /-- The destructor of `delivery_thread` joins it. -/
  | destroy {s : Process S} {exit : Exit} {l : Local} {rest : List Local} :
      s.pc = .leaving exit → s.alive = l :: rest → (l = .delivery_thread → s.runner = .returned) →
      Step eng s (.destroy l) [] (s.destroy l rest)
  | returns {s : Process S} {exit : Exit} :
      s.pc = .leaving exit → s.alive = [] → Step eng s .returns [] { s with pc := .returned exit }
  | delivery {s : Process S} {nowMs : UInt64} {e : LoopEvent RawPacket Action}
      {ctx : IoContext RawPacket} {runner : Runner RawPacket Action} :
      LoopStep (fun input => handler eng input s.state) s.ctx s.runner e ctx runner →
      Step eng s (.delivery nowMs e) []
        { s with ctx := ctx, runner := runner, state := stateAfterEvent eng nowMs s.state e }

/-- An exception that leaves the delivery thread has ended the process. -/
def Process.ended (s : Process S) : Prop := ∃ input, s.runner = .terminated input

/-- One step of the process. -/
def ProcessStep (eng : ProxyEngine F S) (s : Process S) (l : Label) (events : List Event)
    (s' : Process S) : Prop :=
  ¬ s.ended ∧ Step eng s l events s'

/-- The main thread is in the destructor of `delivery_thread`. -/
def Process.joining (s : Process S) (exit : Exit) : Prop :=
  s.pc = .leaving exit ∧ s.alive.head? = some .delivery_thread

/-! ## The handler against `processPacket` -/

/-- What an action does to the outside. -/
def Action.toEffect : Action → Option Effect
  | .effect e => some e
  | _ => none

/-- What a row of actions does to the outside. -/
def effectsIn (actions : List Action) : List Effect := actions.filterMap Action.toEffect

/-- The objects after a row of actions, performed at one clock value. -/
def performAll (eng : ProxyEngine F S) (nowMs : UInt64) (actions : List Action)
    (st : EngineState S) : EngineState S := actions.foldl (Action.perform eng nowMs) st

/-- A batch is applied at the end, if at all. -/
def BatchLast (actions : List Action) : Prop := ∀ updates, .applyBatch updates ∉ actions.dropLast

theorem effectsIn_append (actions actions' : List Action) :
    effectsIn (actions ++ actions') = effectsIn actions ++ effectsIn actions' :=
  List.filterMap_append

theorem effectsIn_map (effects : List Effect) :
    effectsIn (effects.map Action.effect) = effects := by
  rw [effectsIn, List.filterMap_map]
  exact List.filterMap_some

omit [CFloat F] in
theorem performAll_append (eng : ProxyEngine F S) (nowMs : UInt64) (actions actions' : List Action)
    (st : EngineState S) : performAll eng nowMs (actions ++ actions') st =
      performAll eng nowMs actions' (performAll eng nowMs actions st) := List.foldl_append

omit [CFloat F] in
/-- The clock is for batches only. -/
theorem performAll_clock (eng : ProxyEngine F S) {actions : List Action}
    (h : ∀ updates, .applyBatch updates ∉ actions) (nowMs nowMs' : UInt64) (st : EngineState S) :
    performAll eng nowMs actions st = performAll eng nowMs' actions st := by
  induction actions generalizing st with
  | nil => rfl
  | cons a actions ih =>
      have hrest := ih fun updates hmem => h updates (List.mem_cons_of_mem a hmem)
      have hfirst : a.perform eng nowMs st = a.perform eng nowMs' st := by
        cases a with
        | applyBatch updates => exact absurd List.mem_cons_self (h updates)
        | effect e => cases e <;> rfl
        | _ => rfl
      rw [performAll, List.foldl_cons, hfirst]
      exact hrest _

omit [CFloat F] in
/-- The actions of a delivery. -/
theorem performAll_sendFor (eng : ProxyEngine F S) (nowMs : UInt64) (packet : RawPacket)
    (st : EngineState S) :
    performAll eng nowMs ((sendFor eng packet (deliver eng packet st.sender).1).map Action.effect)
      st = { st with sender := (deliver eng packet st.sender).2.1 } := by
  rw [sendFor, deliver]
  cases eng.lrad_config_[packet.destinationLradId]? <;> rfl

/-- The actions of a row of deliveries. -/
theorem performAll_answers (eng : ProxyEngine F S) (nowMs : UInt64) (source_message_id : UInt32)
    (packets : List RawPacket) (st : EngineState S) :
    performAll eng nowMs
      ((answers eng source_message_id packets (outcomes eng packets st.sender)).map Action.effect)
      st = { st with sender := senderAfter eng packets st.sender } := by
  induction packets generalizing st with
  | nil => rfl
  | cons packet packets ih =>
      rw [outcomes, answers_cons, answer, List.map_append, List.map_append, performAll_append,
        performAll_append, performAll_sendFor, senderAfter]
      -- the acknowledgement changes nothing
      exact ih { st with sender := (deliver eng packet st.sender).2.1 }

/-- What `processPacket` leaves is what its actions leave. -/
theorem performAll_processed {eng : ProxyEngine F S} {nowMs : UInt64} {input : RawPacket}
    {st st' : EngineState S} {r : ConversionResult} {effects : List Effect}
    (hr : Converter.convert eng.rt input st.system_state_.getSnapshot = .ok r)
    (h : Processed eng nowMs input st r st' effects) :
    performAll eng nowMs (effects.map Action.effect ++ batch eng input st) st = st' := by
  rw [batch, hr, performAll_append]
  cases h with
  | discarded hempty => simp only [hempty, List.isEmpty_nil]; rfl
  | acknowledged _ hack => simp only [hack, Bool.not_true, Bool.and_false, Bool.false_and]; rfl
  | delivered hne hack =>
      have hempty : r.packets.isEmpty = false := List.isEmpty_eq_false_iff.mpr hne
      rw [performAll_answers, stateAfter]
      simp only [hempty, hack, Bool.not_false, Bool.true_and]
      split_ifs <;> rfl

/-- The same effects at another time. -/
theorem Processed.clock {eng : ProxyEngine F S} {nowMs : UInt64} {input : RawPacket}
    {st st' : EngineState S} {r : ConversionResult} {effects : List Effect}
    (h : Processed eng nowMs input st r st' effects) (nowMs' : UInt64) :
    ∃ st'', Processed eng nowMs' input st r st'' effects := by
  cases h with
  | discarded hempty => exact ⟨_, .discarded hempty⟩
  | acknowledged hne hack => exact ⟨_, .acknowledged hne hack⟩
  | delivered hne hack => exact ⟨_, .delivered hne hack⟩

/-- **The handler** of a datagram that is converted returns. Its actions do what
`processPacket` does: they have its effects, in their order, and leave the objects as it
leaves them at the clock value at which the batch is applied. -/
theorem handler_of_convert {eng : ProxyEngine F S} {input : RawPacket} {st : EngineState S}
    {r : ConversionResult}
    (hr : Converter.convert eng.rt input st.system_state_.getSnapshot = .ok r) :
    ∃ actions, handler eng input st = (actions, .returns) ∧
      ∀ nowMs, Engine.Step eng st (nowMs, input) (effectsIn actions)
        (performAll eng nowMs actions st) := by
  obtain ⟨st', effects, hstep, hprocessed⟩ :=
    @processPacket_of_convert F _ S eng 0 input st r hr
  refine ⟨_, by rw [handler, hstep], fun nowMs => ?_⟩
  obtain ⟨st'', hprocessed'⟩ := Processed.clock hprocessed nowMs
  have heffects : effectsIn (.getSnapshot :: .convert :: effects.map Action.effect
      ++ batch eng input st) = effects := by
    have hbatch : effectsIn (batch eng input st) = [] := by
      rw [batch, hr]
      simp only
      split_ifs <;> rfl
    have hfirst := effectsIn_append (effects.map Action.effect) (batch eng input st)
    rw [effectsIn_map, hbatch, List.append_nil] at hfirst
    exact hfirst
  rw [heffects]
  exact (processPacket_of_processed hr hprocessed').trans
    (congrArg (fun st => Except.ok (st, effects)) (performAll_processed hr hprocessed').symm)

theorem batchLast_append {before last : List Action} (hlast : last.length ≤ 1)
    (hbefore : ∀ updates, .applyBatch updates ∉ before) : BatchLast (before ++ last) := by
  intro updates hmem
  cases last with
  | nil =>
      rw [List.append_nil] at hmem
      exact hbefore updates (List.dropLast_subset before hmem)
  | cons a last =>
      obtain rfl : last = [] := List.eq_nil_of_length_eq_zero (by simpa using hlast)
      rw [List.dropLast_concat] at hmem
      exact hbefore updates hmem

theorem length_batch_le (eng : ProxyEngine F S) (input : RawPacket) (st : EngineState S) :
    (batch eng input st).length ≤ 1 := by
  rw [batch]
  split
  · split_ifs <;> simp
  · simp

theorem batchLast_handler (eng : ProxyEngine F S) (input : RawPacket) (st : EngineState S) :
    BatchLast (handler eng input st).1 := by
  rw [handler]
  split
  · exact batchLast_append (length_batch_le eng input st) (by simp)
  · exact fun updates => by simp
  · exact fun updates => by simp

end

end CmsProxy.Main
