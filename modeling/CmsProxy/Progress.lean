/-
How the delivery thread gets on.

Left to itself, the delivery thread takes a bounded number of steps: so many for
each order that is queued (`cost`). Until `main` stops it, nothing holds it up but
the datagram it is working on, so what has been received is processed
(`delivery_drains`). There is one thing that ends it: a datagram that is not
converted leaves its handler by an exception, and nothing behind it is ever
started (`poison_is_last`).
-/
import CmsProxy.Acceptance
import CmsProxy.Interleaving
import CmsProxy.ReadSafety

set_option autoImplicit false

namespace CmsProxy.Progress

open BigEndian Interfaces Converter Orders Engine Answers EventLoop Runs Shutdown Interleaving
open Acceptance (badText convert_returns_iff handler_returns)
open CueingBounds (Atan2Range)
open ReadSafety (Never)
open Main hiding Step
open Receiver hiding Entry

section

variable {F : Type} [CFloat F] {S : Type} {eng : ProxyEngine F S}

/-! ## Steps left to take -/

/-- A bound on the steps of a handler, with the two that start and finish it: an
order is at most a send and an acknowledgement. -/
def cost (input : RawPacket) : ℕ := 2 * (ordersOf input.data).length + 5

/-- The steps the thread can still take for what it is doing. -/
def left : Runner RawPacket Action → ℕ
  | .idle => 1
  | .running _ rest _ => rest.length + 2
  | _ => 0

/-- The steps it can take if nothing more is received. -/
def work (s : Process S) : ℕ := (s.ctx.queue.map cost).sum + left s.runner

omit [CFloat F] in
theorem length_sendFor_le (eng : ProxyEngine F S) (packet : RawPacket) (outcome : SendResult) :
    (sendFor eng packet outcome).length ≤ 1 := by
  rw [sendFor]
  cases eng.lrad_config_[packet.destinationLradId]? with
  | some destination => exact le_rfl
  | none => exact Nat.zero_le 1

theorem length_answers_le (eng : ProxyEngine F S) (source_message_id : UInt32)
    (packets : List RawPacket) (results : List SendResult) :
    (answers eng source_message_id packets results).length ≤ 2 * packets.length := by
  induction packets generalizing results with
  | nil => exact Nat.zero_le _
  | cons packet packets ih =>
      cases results with
      | nil => exact Nat.zero_le _
      | cons result results =>
          have hsend := length_sendFor_le eng packet result
          have hrest := ih results
          rw [answers_cons, answer, List.length_append, List.length_append, List.length_singleton,
            List.length_cons]
          omega

/-- An order has at most two effects. -/
theorem length_effects_le {nowMs : UInt64} {input : RawPacket} {st st' : EngineState S}
    {effects : List Effect} (h : processPacket eng nowMs input st = .ok (st', effects)) :
    effects.length ≤ 2 * (ordersOf input.data).length := by
  obtain ⟨r, hr, hprocessed⟩ := processPacket_ok h
  rw [(convert_ok hr).packets.length_eq]
  cases hprocessed with
  | discarded _ => exact Nat.zero_le _
  | acknowledged hne _ =>
      have hpos := List.length_pos_iff.mpr hne
      rw [List.length_singleton]
      omega
  | delivered _ _ => exact length_answers_le _ _ _ _

theorem length_handler_le (eng : ProxyEngine F S) (input : RawPacket) (st : EngineState S) :
    (handler eng input st).1.length + 2 ≤ cost input := by
  rw [cost]
  cases hconvert : convert eng.rt input {} with
  | error e =>
      rw [handler_of_error hconvert]
      show 2 + 2 ≤ _
      omega
  | ok r =>
      obtain ⟨st', effects, hstep, -⟩ := @processPacket_of_convert F _ S eng 0 input st r
        ((convert_snapshot _ _).trans hconvert)
      have heffects := length_effects_le hstep
      have hbatch := length_batch_le eng input st
      rw [handler, hstep]
      -- the snapshot, the conversion, the effects, and the batch if there is one
      simp only [List.cons_append, List.length_cons, List.length_append, List.length_map]
      omega

/-- A step of the delivery thread. -/
def DeliveryStep (eng : ProxyEngine F S) (s : Process S) (l : Label) (events : List Event)
    (s' : Process S) : Prop :=
  ProcessStep eng s l events s' ∧ ∃ nowMs e, l = .delivery nowMs e

/-- Every step of the delivery thread is one step less to take. -/
theorem work_step {s s' : Process S} {l : Label} {events : List Event}
    (h : DeliveryStep eng s l events s') : work s' < work s := by
  obtain ⟨⟨-, hstep⟩, nowMs, e, rfl⟩ := h
  cases hstep with
  | @delivery _ _ ctx runner hloop =>
      simp only [work]
      cases hrunner : s.runner with
      | idle =>
          rw [hrunner] at hloop
          cases hloop with
          | @start input queue _ hqueue =>
              have hle := length_handler_le eng input s.state
              rw [hqueue, List.map_cons, List.sum_cons]
              simp only [left]
              omega
          | leave _ =>
              simp only [left]
              omega
      | running input rest ending =>
          rw [hrunner] at hloop
          cases hloop <;> simp only [left, List.length_cons, List.length_nil] <;> omega
      | _ =>
          rw [hrunner] at hloop
          cases hloop

/-! ## The queue drains -/

/-- Everything that has been taken by the engine can be converted. -/
theorem convertible_of_history {st₀ st : EngineState S} {history : History}
    (h : Run (Step eng) st₀ history st) : ∀ input ∈ inputs history, Convertible eng.rt input := by
  intro input hinput
  obtain ⟨e, he, rfl⟩ := List.mem_map.mp hinput
  exact h.forall_mem (fun _ => True) (fun i _ => Convertible eng.rt i.2) trivial
    (fun _ _ _ _ _ hstep => ⟨trivial, convertible_of_step hstep⟩) e he

/-- No step leads back to the time before the thread. -/
theorem ne_notStarted {script : RawPacket → List Action × Ending} {ctx ctx' : IoContext RawPacket}
    {runner runner' : Runner RawPacket Action} {e : LoopEvent RawPacket Action}
    (h : LoopStep script ctx runner e ctx' runner') : runner' ≠ .notStarted := by
  cases h <;> exact nofun

/-- A thread that has been created has been started. -/
theorem runner_started {st₀ : EngineState S} {log : List Entry} {s : Process S}
    (h : Run (ProcessStep eng) (initial st₀) log s) :
    .delivery_thread ∈ s.alive → s.runner ≠ .notStarted := by
  refine h.invariant (fun s => .delivery_thread ∈ s.alive → s.runner ≠ .notStarted)
    (fun hmem => absurd hmem List.not_mem_nil) ?_
  rintro s l events s' hstarted ⟨-, hstep⟩
  cases hstep with
  | @construct l rest hpc =>
      have halive : (s.construct l rest).alive = l :: s.alive := by cases l <;> rfl
      rw [halive]
      intro hmem
      by_cases hl : l = .delivery_thread
      · subst hl
        exact nofun
      · have hrunner : (s.construct l rest).runner = s.runner := by
          cases l <;> first | rfl | exact absurd rfl hl
        rw [hrunner]
        exact hstarted (List.mem_of_ne_of_mem (Ne.symm hl) hmem)
  | @destroy exit l rest hpc halive hjoin =>
      obtain ⟨-, halive', hrunner, -, -⟩ := destroy_frame s l rest
      rw [halive', hrunner]
      intro hmem
      exact hstarted (halive ▸ List.mem_cons_of_mem l hmem)
  | delivery hloop =>
      exact fun _ => ne_notStarted hloop
  | _ => exact hstarted

/-- Nothing keeps the delivery thread from working. -/
structure Working (eng : ProxyEngine F S) (s : Process S) : Prop where
  running : s.ctx.stopped = false
  guarded : s.ctx.guarded = true
  queue : ∀ input ∈ s.ctx.queue, Convertible eng.rt input
  runner : s.runner = .idle ∨ ∃ input rest, s.runner = .running input rest .returns

/-- While the receive loop runs and all it has received can be converted. -/
theorem working_of_receiving {st₀ : EngineState S} {log : List Entry} {s : Process S}
    (h : Run (ProcessStep eng) (initial st₀) log s) (hpc : s.pc = .receiving)
    (hconvertible : ∀ input ∈ received log, Convertible eng.rt input) : Working eng s := by
  obtain ⟨history, st, -, hfollows⟩ := follows_run h 0
  have haccount := hfollows.account
  have hphase := haccount.inv.phase
  rw [hpc] at hphase
  obtain ⟨halive, hheld⟩ := hphase
  have hthread : .delivery_thread ∈ s.alive := halive ▸ mem_declarations .delivery_thread
  have hposted := haccount.posted
  rw [haccount.inFlight] at hposted
  have hflight : ∀ input ∈ s.runner.inFlight, Convertible eng.rt input := by
    intro input hinput
    apply hconvertible
    rw [hposted]
    exact List.mem_append_left _ (List.mem_append_right _ hinput)
  refine ⟨hheld.running, hheld.guarded (halive ▸ mem_declarations .delivery_work_guard), ?_, ?_⟩
  · intro input hinput
    apply hconvertible
    rw [hposted]
    exact List.mem_append_right _ hinput
  · have hreturned : s.runner ≠ .returned := by
      rcases hheld.waiting with hnone | ⟨-, hwaiting⟩
      · exact absurd hnone (runner_started h hthread)
      · exact hwaiting
    -- a handler that throws or hangs would be that of a datagram that is not converted
    have hfailing := hfollows.failing
    cases hrunner : s.runner with
    | notStarted => exact absurd hrunner (runner_started h hthread)
    | idle => exact Or.inl rfl
    | running input rest ending =>
        rw [hrunner] at hfailing hflight
        obtain ⟨r, hr⟩ := hflight input (List.mem_singleton_self _)
        cases ending with
        | returns => exact Or.inr ⟨input, rest, rfl⟩
        | throws =>
            obtain ⟨e, -, he⟩ := hfailing
            exact nomatch hr.symm.trans he
        | hangs => exact nomatch hr.symm.trans hfailing
    | returned => exact absurd hrunner hreturned
    | terminated input =>
        rw [hrunner] at hfailing hflight
        obtain ⟨r, hr⟩ := hflight input (List.mem_singleton_self _)
        obtain ⟨e, -, he⟩ := hfailing
        exact nomatch hr.symm.trans he

/-- It stays so while the thread works. -/
theorem Working.step {s s' : Process S} {l : Label} {events : List Event}
    (hworking : Working eng s) (h : DeliveryStep eng s l events s') : Working eng s' := by
  obtain ⟨⟨-, hstep⟩, nowMs, e, rfl⟩ := h
  obtain ⟨hrunning, hguarded, hqueue, hrunner⟩ := hworking
  cases hstep with
  | @delivery _ _ ctx runner hloop =>
      obtain ⟨hstopped', hguarded'⟩ := hloop.flags
      have hqueue' : ∀ input ∈ ctx.queue, Convertible eng.rt input := by
        intro input hinput
        apply hqueue
        rw [hloop.account.1]
        exact List.mem_append_right _ hinput
      refine ⟨hstopped'.trans hrunning, hguarded'.trans hguarded, hqueue', ?_⟩
      rcases hrunner with hidle | ⟨input, rest, hbusy⟩
      · rw [hidle] at hloop
        cases hloop with
        | @start input queue _ hhead =>
            -- the datagram that is started is one of the queue
            have hmem : input ∈ s.ctx.queue := hhead ▸ List.mem_cons_self
            obtain ⟨actions, hhandler, -⟩ :=
              @handler_of_convertible F _ S eng _ (hqueue input hmem) s.state
            rw [hhandler]
            exact Or.inr ⟨input, actions, rfl⟩
        | leave hleave =>
            -- the loop is neither stopped nor without its guard
            rcases hleave with hstop | ⟨hfree, -⟩
            · exact absurd (hrunning.symm.trans hstop) (by decide)
            · exact absurd (hguarded.symm.trans hfree) (by decide)
      · rw [hbusy] at hloop
        cases hloop with
        | act => exact Or.inr ⟨input, _, rfl⟩
        | finish => exact Or.inl rfl

/-- Nothing is queued, and the thread waits for work. -/
def Drained (s : Process S) : Prop := s.runner = .idle ∧ s.ctx.queue = []

/-- A thread that is not held up has a step, unless there is nothing to do. -/
theorem Working.progress {s : Process S} (hworking : Working eng s) (hbusy : ¬ Drained s) :
    ∃ l events s', DeliveryStep eng s l events s' := by
  obtain ⟨hrunning, -, -, hrunner⟩ := hworking
  have hstep : ∃ e ctx runner,
      LoopStep (fun input => handler eng input s.state) s.ctx s.runner e ctx runner := by
    rcases hrunner with hidle | ⟨input, rest, hhandler⟩
    · obtain ⟨input, queue, hqueue⟩ :=
        List.exists_cons_of_ne_nil (fun hempty => hbusy ⟨hidle, hempty⟩)
      rw [hidle]
      exact ⟨_, _, _, .start hrunning hqueue⟩
    · rw [hhandler]
      cases rest with
      | nil => exact ⟨_, _, _, .finish⟩
      | cons a rest => exact ⟨_, _, _, .act⟩
  obtain ⟨e, ctx, runner, hloop⟩ := hstep
  have hlive : ¬ s.ended := by
    rcases hrunner with hidle | ⟨input, rest, hhandler⟩
    · exact not_ended hidle (by simp)
    · exact not_ended hhandler (by simp)
  have hstep : ProcessStep eng s (.delivery 0 e) [] _ := ⟨hlive, .delivery hloop⟩
  exact ⟨_, _, _, hstep, 0, e, rfl⟩

/-- The steps of the delivery thread receive nothing. -/
theorem received_delivery {s s' : Process S} {more : List Entry}
    (h : Run (DeliveryStep eng) s more s') : received more = [] := by
  have hsilent := h.forall_mem (fun _ => True) (fun _ events => packetsOf events = []) trivial (by
    rintro s l events s' - ⟨⟨-, hstep⟩, nowMs, e, rfl⟩
    cases hstep with
    | delivery _ => exact ⟨trivial, rfl⟩)
  rw [received, List.flatMap_eq_nil_iff]
  exact hsilent

/-- **The queue drains.** While the receive loop runs and all that was received can
be converted, the delivery thread, left to itself, takes at most `work` steps; and
whatever steps it has taken, it goes on until it has processed everything, as the
engine does. -/
theorem delivery_drains {st₀ : EngineState S} {log more : List Entry} {s s' : Process S}
    (h : Run (ProcessStep eng) (initial st₀) log s) (hpc : s.pc = .receiving)
    (hconvertible : ∀ input ∈ received log, Convertible eng.rt input)
    (hmore : Run (DeliveryStep eng) s more s') :
    more.length ≤ work s ∧ ∃ rest s'' history, Run (DeliveryStep eng) s' rest s'' ∧ Drained s'' ∧
      processed (log ++ more ++ rest) = received log ∧
      Run (Step eng) st₀ history s''.state ∧ inputs history = received log ∧
      effectsOf history = performed (log ++ more ++ rest) := by
  have hworking := working_of_receiving h hpc hconvertible
  obtain ⟨hworking', hlength⟩ := hmore.length_le (Working eng) work
    (fun _ _ _ _ hinv hstep => ⟨hinv.step hstep, work_step hstep⟩) hworking
  obtain ⟨rest, s'', hrest, -, hdrained⟩ :=
    @Run.reaches _ _ _ (DeliveryStep eng) _ (Working eng) Drained work
      (fun _ _ _ _ hinv hstep => ⟨hinv.step hstep, work_step hstep⟩)
      (fun _ hinv hbusy => hinv.progress hbusy) hworking'
  refine ⟨by omega, rest, s'', ?_⟩
  -- what the thread has done, together with what was done before
  have hrun := (h.append (hmore.mono fun _ _ _ _ hs => hs.1)).append
    (hrest.mono fun _ _ _ _ hs => hs.1)
  have hidle : s''.runner.inFlight = [] := by
    rw [hdrained.1]
    rfl
  have haccount := account_run hrun
  have hall : received log = processed (log ++ more ++ rest) := by
    have hposted := haccount.posted
    rw [haccount.inFlight, hidle, hdrained.2, List.append_nil, List.append_nil] at hposted
    rw [← hposted, received_append, received_append, received_delivery hmore,
      received_delivery hrest, List.append_nil, List.append_nil]
  obtain ⟨history, st, hengine, hfollows⟩ := follows_run hrun 0
  obtain ⟨hinputs, -, heffects, rfl⟩ := hfollows.between hidle
  exact ⟨history, hrest, hdrained, hall.symm, hengine, hinputs.trans hall.symm, heffects⟩

end

/-- A datagram with two orders, received and not yet looked at. -/
theorem delivery_drains_one : ∃ log s rest s', received log = [packet] ∧ processed log = [] ∧
    (ordersOf packet.data).length = 2 ∧ Run (DeliveryStep (Reference.engine [1])) s rest s' ∧
    Drained s' ∧ processed (log ++ [] ++ rest) = [packet] := by
  obtain ⟨log, s, hrun, hs, hreceived, hprocessed⟩ := one_received
  obtain ⟨actions, hhandler⟩ := handler_packet
  have hconvertible : ∀ input ∈ received log, Convertible (Reference.engine [1]).rt input := by
    intro input hinput
    rw [hreceived] at hinput
    rw [List.mem_singleton.mp hinput]
    exact convertible_of_handler hhandler
  obtain ⟨-, rest, s', history, hrest, hdrained, hall, -⟩ :=
    delivery_drains (hrun.mono fun _ _ _ _ h => h.1) hs.pc hconvertible .nil
  exact ⟨log, s, rest, s', hreceived, hprocessed, by decide, hrest, hdrained,
    hall.trans hreceived⟩

/-! ## The last datagram -/

section

variable {S : Type} {eng : ProxyEngine Float32 S}

/-- What can be converted: everything but text that is not UTF-8. -/
theorem convertible_iff {rt : Runtime Float32} (hjson : rt.JsonLaws) (hatan : Atan2Range rt)
    (hfuel : 2 ≤ rt.fuel) (input : RawPacket) :
    Convertible rt input ↔ ¬ TextInvalid input.data :=
  convert_returns_iff hjson fun _ hk => handler_returns hfuel hatan _ hk

/-- A conversion ends. -/
theorem never_stillRunning {rt : Runtime Float32} (hatan : Atan2Range rt) (hfuel : 2 ≤ rt.fuel)
    (input : RawPacket) (snapshot : SystemStateSnapshot) :
    Never .stillRunning (convert rt input snapshot) := by
  rw [convert_eq]
  cases hk : messageKind input.data with
  | none => exact Never.ok _
  | some k =>
      obtain ⟨r, hr⟩ := handler_returns hfuel hatan snapshot hk
      simp only [hr, ok_bind]
      refine (Never.mapM fun m => ?_).bind fun packets _ => Never.ok _
      -- what is left is the exception of `dump`
      rw [serialize]
      cases rt.dump m.payload with
      | none => exact Never.other (by decide)
      | some s => exact Never.ok _

/-- The handler of a datagram with invalid text ends by an exception. -/
theorem handler_of_textInvalid (hjson : eng.rt.JsonLaws) (hatan : Atan2Range eng.rt)
    (hfuel : 2 ≤ eng.rt.fuel) {input : RawPacket} (h : TextInvalid input.data)
    (st : EngineState S) : handler eng input st = ([.getSnapshot, .convert], .throws) := by
  cases hconvert : convert eng.rt input {} with
  | ok r => exact absurd h ((convertible_iff hjson hatan hfuel input).mp ⟨r, hconvert⟩)
  | error e =>
      have hne : e ≠ .stillRunning := by
        rintro rfl
        exact never_stillRunning hatan hfuel input {} hconvert
      rw [handler_of_error hconvert, if_neg hne]

/-- What has been processed had valid text. -/
theorem textValid_of_processed (hjson : eng.rt.JsonLaws) (hatan : Atan2Range eng.rt)
    (hfuel : 2 ≤ eng.rt.fuel) {st₀ : EngineState S} {log : List Entry} {s : Process S}
    (h : Run (ProcessStep eng) (initial st₀) log s) :
    ∀ input ∈ processed log, ¬ TextInvalid input.data := by
  intro input hinput
  obtain ⟨history, st, hrun, hfollows⟩ := follows_run h 0
  rw [← convertible_iff hjson hatan hfuel]
  apply convertible_of_history hrun
  rw [hfollows.inputs]
  exact List.mem_append_left _ hinput

/-- A part from the front that leaves out one element stops before it. -/
theorem prefix_before {α : Type} {l before after : List α} {a : α}
    (h : l <+: before ++ a :: after) (ha : a ∉ l) : l <+: before := by
  rcases List.prefix_or_prefix_of_prefix h (List.prefix_append before (a :: after))
    with hle | ⟨tail, rfl⟩
  · exact hle
  · cases tail with
    | nil => rw [List.append_nil]
    | cons b tail =>
        rw [List.prefix_append_right_inj, List.cons_prefix_cons] at h
        obtain ⟨rfl, -⟩ := h
        exact absurd (List.mem_append_right _ List.mem_cons_self) ha

/-- What has not been processed was the last to be started, if that. -/
theorem behind_bad {log : List Entry} {s : Process S} (haccount : Account log s)
    {before after : List RawPacket} {bad : RawPacket}
    (hreceived : received log = before ++ bad :: after) (hbad : bad ∉ processed log) :
    started log <+: before ++ [bad] ∧ processed log <+: before := by
  have hposted := haccount.posted
  have hflight := haccount.inFlight
  have hprefix : processed log <+: before ++ bad :: after := by
    rw [← hreceived, hposted, hflight, List.append_assoc]
    exact List.prefix_append _ _
  have hprocessed := prefix_before hprefix hbad
  refine ⟨?_, hprocessed⟩
  -- at most one more has been started
  have hone : s.runner.inFlight.length ≤ 1 := by cases s.runner <;> simp [Runner.inFlight]
  have hstarted : started log <+: (before ++ [bad]) ++ after := by
    rw [List.append_assoc, List.singleton_append, ← hreceived, hposted]
    exact List.prefix_append _ _
  apply List.prefix_of_prefix_length_le hstarted (List.prefix_append _ _)
  have hle := hprocessed.length_le
  rw [hflight, List.length_append, List.length_append, List.length_singleton]
  omega

/-- A datagram with invalid text is the last to be started, and is never finished. -/
structure LastStarted (log : List Entry) (s : Process S) : Prop where
  behind : ∀ before bad after, received log = before ++ bad :: after → TextInvalid bad.data →
    started log <+: before ++ [bad] ∧ processed log <+: before
  ended : ∀ input, s.runner = .terminated input →
    TextInvalid input.data ∧ started log = processed log ++ [input]
  returns : ∀ input rest ending, s.runner = .running input rest ending →
    ending = if TextInvalid input.data then .throws else .returns

/-- **The last datagram.** In every run, nothing behind a datagram with invalid text
is ever started. Such a datagram is what ends the delivery thread, by an exception,
and nothing else does; no handler runs for ever. -/
theorem poison_is_last (hjson : eng.rt.JsonLaws) (hatan : Atan2Range eng.rt)
    (hfuel : 2 ≤ eng.rt.fuel) {st₀ : EngineState S} {log : List Entry} {s : Process S}
    (h : Run (ProcessStep eng) (initial st₀) log s) : LastStarted log s := by
  obtain ⟨history, st, hrun, hfollows⟩ := follows_run h 0
  have haccount := hfollows.account
  have hfailing := hfollows.failing
  have hvalid := textValid_of_processed hjson hatan hfuel h
  have hinvalid : ∀ input e, convert eng.rt input {} = .error e → TextInvalid input.data := by
    intro input e he
    by_contra hnot
    obtain ⟨r, hr⟩ := (convertible_iff hjson hatan hfuel input).mpr hnot
    exact nomatch hr.symm.trans he
  refine ⟨fun before bad after hreceived hbad => ?_, fun input hrunner => ?_,
    fun input rest ending hrunner => ?_⟩
  · exact behind_bad haccount hreceived fun hmem => hvalid bad hmem hbad
  · rw [hrunner] at hfailing
    obtain ⟨e, -, he⟩ := hfailing
    refine ⟨hinvalid input e he, ?_⟩
    rw [haccount.inFlight, hrunner]
    rfl
  · rw [hrunner] at hfailing
    cases ending with
    | returns =>
        -- the engine has taken this datagram
        have hmem : input ∈ inputs history := by
          rw [hfollows.inputs, hrunner]
          exact List.mem_append_right _ (List.mem_singleton_self _)
        have hconvertible := convertible_of_history hrun input hmem
        rw [if_neg ((convertible_iff hjson hatan hfuel input).mp hconvertible)]
    | throws =>
        obtain ⟨e, -, he⟩ := hfailing
        rw [if_pos (hinvalid input e he)]
    | hangs => exact absurd hfailing (never_stillRunning hatan hfuel input {})

/-- A datagram with invalid text has ended the thread, and another stands behind it. -/
theorem poison_is_last_started : ∃ log : List Entry, ∃ s : Process (List SendResult),
    received log = [badText, packet] ∧ s.runner = .terminated badText ∧ LastStarted log s := by
  have hinputs : ∀ input ∈ [badText, packet], Receivable input :=
    List.forall_mem_cons.mpr ⟨⟨rfl, by decide +kernel⟩,
      List.forall_mem_singleton.mpr receivable_packet⟩
  obtain ⟨log, s, hrun, hs, hreceived, -⟩ := run_queued (Reference.engine [1]) objects hinputs
  have hinvalid : TextInvalid badText.data := by decide +kernel
  have hthrows : handler (Reference.engine [1]) badText objects =
      ([.getSnapshot, .convert], .throws) :=
    @handler_of_textInvalid _ (Reference.engine [1]) Reference.linux_jsonLaws
      Reference.linux_atan2Range (by decide) badText hinvalid objects
  have hstarted := hrun.snoc (hs.start 0)
  rw [hthrows] at hstarted
  have hthrown := hstarted.append (run_throwing rfl 0)
  refine ⟨_, _, ?_, rfl, @poison_is_last _ (Reference.engine [1]) Reference.linux_jsonLaws
    Reference.linux_atan2Range (by decide) _ _ _ (hthrown.mono fun _ _ _ _ h => h.1)⟩
  rw [received_append, received_append, hreceived]
  rfl

end

end CmsProxy.Progress
