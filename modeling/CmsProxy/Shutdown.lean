/-
What the two threads do to each other.

Where the main thread is says which objects are alive and whether the delivery
loop still waits for work (`Inv`). From there three questions have answers. An
orderly exit drops what is queued when the loop is stopped, and has processed
everything before it, once and in order (`shutdown_account`). The engine is
destroyed before the thread is joined, so a handler that is running then, or is
started later, outlives it; otherwise none does (`no_handler_outlives`). And an
exception leaves the block without releasing the work guard, so the join in its
unwinding never ends (`failure_deadlocks`).
-/
import CmsProxy.Main
import CmsProxy.Reference

set_option autoImplicit false

namespace CmsProxy.Shutdown

open BigEndian Interfaces Engine EventLoop Receiver Runs Main

section

variable {F : Type} [CFloat F] {S : Type} {eng : ProxyEngine F S}

/-- The process before the first declaration. -/
def initial (st₀ : EngineState S) : Process S := { state := st₀ }

/-! ## The stack of objects -/

/-- The objects declared before another one, the youngest first. -/
def below (l : Local) : List Local := (declarations.reverse.dropWhile (· ≠ l)).tail

theorem nodup_declarations : declarations.reverse.Nodup := by decide

theorem mem_declarations (l : Local) : l ∈ declarations.reverse := by
  cases l <;> decide

/-- The objects under one on the stack are those declared before it. -/
theorem eq_below {above under : List Local} {l : Local}
    (h : declarations.reverse = above ++ l :: under) : under = below l := by
  have hnodup := nodup_declarations
  rw [h] at hnodup
  have hnotin : l ∉ above := fun hmem =>
    (List.nodup_append.mp hnodup).2.2 l hmem l List.mem_cons_self rfl
  have hdrop : (above ++ l :: under).dropWhile (· ≠ l) = l :: under := by
    rw [List.dropWhile_append_of_pos, List.dropWhile_cons_of_neg (by simp)]
    intro l' hl'
    simp only [ne_eq, decide_not, Bool.not_eq_true', decide_eq_false_iff_not]
    rintro rfl
    exact hnotin hl'
  rw [below, h, hdrop, List.tail_cons]

theorem stack_cons {l : Local} {rest : List Local} (h : (l :: rest) <:+ declarations.reverse) :
    rest = below l := by
  obtain ⟨above, habove⟩ := h
  exact eq_below habove.symm

/-- The delivery thread has a guard under it. -/
theorem guard_of_thread {stack : List Local} (h : stack <:+ declarations.reverse)
    (hthread : .delivery_thread ∈ stack) : .delivery_work_guard ∈ stack := by
  cases stack with
  | nil => exact absurd hthread List.not_mem_nil
  | cons l rest =>
      obtain rfl := stack_cons h
      revert hthread
      cases l <;> decide

/-- With the engine, all objects are alive. -/
theorem all_of_engine {stack : List Local} (h : stack <:+ declarations.reverse)
    (hengine : .engine ∈ stack) : stack = declarations.reverse := by
  cases stack with
  | nil => exact absurd hengine List.not_mem_nil
  | cons l rest =>
      obtain rfl := stack_cons h
      revert hengine
      cases l <;> decide

/-! ## The invariant -/

/-- The exception is thrown after the delivery thread has been created. -/
def afterThread : Point → Bool
  | .construct l => decide (.delivery_thread ∈ below l)
  | .engine_run => true
  | .rx_run => true

/-- The delivery loop waits for work, and the thread, if there is one, is in it. -/
structure Held (alive : List Local) (ctx : IoContext RawPacket)
    (runner : Runner RawPacket Action) : Prop where
  running : ctx.stopped = false
  guarded : .delivery_work_guard ∈ alive → ctx.guarded = true
  waiting : runner = .notStarted ∨ (.delivery_thread ∈ alive ∧ runner ≠ .returned)

/-- What the place of the main thread says. -/
def Phase (pc : MainPc) (alive : List Local) (ctx : IoContext RawPacket)
    (runner : Runner RawPacket Action) : Prop :=
  match pc with
  | .constructing rest =>
      declarations.reverse = rest.reverse ++ alive ∧ Held alive ctx runner ∧ Quiet ctx runner
  | .receiving => alive = declarations.reverse ∧ Held alive ctx runner
  | .resetting => alive = declarations.reverse ∧ Held alive ctx runner
  | .stopping => alive = declarations.reverse ∧ ctx.stopped = false
  | .leaving .orderly => ctx.stopped = true ∧ (.delivery_thread ∈ alive ∨ runner = .returned)
  | .leaving (.thrown p) =>
      Held alive ctx runner ∧ (afterThread p = true → .delivery_thread ∈ alive)
  | .returned .orderly => ctx.stopped = true ∧ runner = .returned
  | .returned (.thrown p) => afterThread p = false

/-- What holds between any two steps. -/
structure Inv (s : Process S) : Prop where
  stack : s.alive <:+ declarations.reverse
  phase : Phase s.pc s.alive s.ctx s.runner

theorem inv_initial (st₀ : EngineState S) : Inv (initial st₀) where
  stack := List.nil_suffix
  phase := by
    refine ⟨(List.append_nil _).symm, ⟨rfl, ?_, Or.inl rfl⟩, rfl, Or.inr rfl⟩
    intro hmem
    exact absurd hmem List.not_mem_nil

/-! ## What a step keeps -/

section

variable {alive : List Local} {ctx ctx' : IoContext RawPacket}
variable {runner runner' : Runner RawPacket Action} {e : LoopEvent RawPacket Action}
variable {script : RawPacket → List Action × Ending}

/-- The steps of the delivery thread keep the loop waiting. -/
theorem Held.delivery (hheld : Held alive ctx runner) (hstack : alive <:+ declarations.reverse)
    (h : LoopStep script ctx runner e ctx' runner') : Held alive ctx' runner' := by
  obtain ⟨hstopped, hguarded⟩ := h.flags
  refine ⟨hstopped.trans hheld.running, fun hguard => hguarded.trans (hheld.guarded hguard), ?_⟩
  rcases hheld.waiting with hnone | ⟨hthread, -⟩
  · -- a thread that does not exist takes no step
    rw [hnone] at h
    cases h
  · refine Or.inr ⟨hthread, ?_⟩
    rintro rfl
    have hguard := hheld.guarded (guard_of_thread hstack hthread)
    rcases h.returned with hstop | ⟨hfree, -⟩
    · exact absurd (hheld.running.symm.trans hstop) (by decide)
    · exact absurd (hguard.symm.trans hfree) (by decide)

/-- A thread that has returned takes no more steps. -/
theorem returned_delivery (h : LoopStep script ctx runner e ctx' runner')
    (hreturned : runner = .returned) : runner' = .returned := by
  rw [hreturned] at h
  cases h

/-- The steps of the delivery thread leave the main thread's place as it is. -/
theorem Phase.delivery {pc : MainPc} (hphase : Phase pc alive ctx runner)
    (hstack : alive <:+ declarations.reverse) (h : LoopStep script ctx runner e ctx' runner') :
    Phase pc alive ctx' runner' := by
  obtain ⟨hstopped, -⟩ := h.flags
  cases pc with
  | constructing rest =>
      obtain ⟨horder, hheld, hquiet⟩ := hphase
      exact ⟨horder, hheld.delivery hstack h, (hquiet.step h).2⟩
  | receiving => exact ⟨hphase.1, hphase.2.delivery hstack h⟩
  | resetting => exact ⟨hphase.1, hphase.2.delivery hstack h⟩
  | stopping => exact ⟨hphase.1, hstopped.trans hphase.2⟩
  | leaving exit =>
      cases exit with
      | orderly => exact ⟨hstopped.trans hphase.1, hphase.2.imp_right (returned_delivery h)⟩
      | thrown p => exact ⟨hphase.1.delivery hstack h, hphase.2⟩
  | returned exit =>
      cases exit with
      | orderly => exact ⟨hstopped.trans hphase.1, returned_delivery h hphase.2⟩
      | thrown p => exact hphase

end

/-- A declaration keeps the loop waiting: the guard is declared before the thread. -/
theorem Held.construct {s : Process S} (l : Local) (rest : List Local)
    (hheld : Held s.alive s.ctx s.runner) :
    Held (l :: s.alive) (s.construct l rest).ctx (s.construct l rest).runner := by
  have hwaiting := hheld.waiting.imp_right fun h => And.intro (List.mem_cons_of_mem l h.1) h.2
  have hguarded : l ≠ .delivery_work_guard → .delivery_work_guard ∈ l :: s.alive →
      s.ctx.guarded = true :=
    fun hne hmem => hheld.guarded (List.mem_of_ne_of_mem (Ne.symm hne) hmem)
  cases l with
  | delivery_work_guard => exact ⟨hheld.running, fun _ => rfl, hwaiting⟩
  | delivery_thread =>
      refine ⟨hheld.running, hguarded (by decide), Or.inr ⟨List.mem_cons_self, ?_⟩⟩
      intro hreturned
      cases hreturned
  | _ => exact ⟨hheld.running, hguarded (by decide), hwaiting⟩

theorem Quiet.construct {s : Process S} (l : Local) (rest : List Local)
    (hquiet : Quiet s.ctx s.runner) :
    Quiet (s.construct l rest).ctx (s.construct l rest).runner := by
  cases l with
  | delivery_thread => exact ⟨rfl, hquiet.queued⟩
  | _ => exact ⟨hquiet.inFlight, hquiet.queued⟩

/-- What a destructor leaves alone. -/
theorem destroy_frame (s : Process S) (l : Local) (rest : List Local) :
    (s.destroy l rest).pc = s.pc ∧ (s.destroy l rest).alive = rest ∧
      (s.destroy l rest).runner = s.runner ∧ (s.destroy l rest).ctx.queue = s.ctx.queue ∧
      (s.destroy l rest).ctx.stopped = s.ctx.stopped := by
  cases l <;> exact ⟨rfl, rfl, rfl, rfl, rfl⟩

/-- A destructor keeps the loop waiting, unless it is the thread's: the guard is
destroyed after the thread. -/
theorem Held.destroy {s : Process S} {l : Local} {rest : List Local}
    (hheld : Held (l :: rest) s.ctx s.runner) (hstack : (l :: rest) <:+ declarations.reverse)
    (hjoin : l = .delivery_thread → s.runner = .returned) :
    Held rest (s.destroy l rest).ctx (s.destroy l rest).runner := by
  obtain ⟨-, -, hrunner, -, hstopped⟩ := destroy_frame s l rest
  refine ⟨hstopped.trans hheld.running, ?_, ?_⟩
  · intro hguard
    have hne : l ≠ .delivery_work_guard := by
      rintro rfl
      rw [stack_cons hstack] at hguard
      exact absurd hguard (by decide)
    have hctx : (s.destroy l rest).ctx = s.ctx := by
      cases l <;> first | rfl | exact absurd rfl hne
    rw [hctx]
    exact hheld.guarded (List.mem_cons_of_mem l hguard)
  · rw [hrunner]
    rcases hheld.waiting with hnone | ⟨hthread, hwaiting⟩
    · exact Or.inl hnone
    · -- the thread has not returned, so it is not the one that is joined
      have hne : .delivery_thread ≠ l := fun h => hwaiting (hjoin h.symm)
      exact Or.inr ⟨List.mem_of_ne_of_mem hne hthread, hwaiting⟩

/-- **Steps.** Every step keeps the invariant. -/
theorem inv_step {s s' : Process S} {l : Label} {events : List Event} (hinv : Inv s)
    (h : ProcessStep eng s l events s') : Inv s' := by
  obtain ⟨-, hstep⟩ := h
  obtain ⟨hstack, hphase⟩ := hinv
  cases hstep with
  | @construct l rest hpc =>
      rw [hpc] at hphase
      obtain ⟨horder, hheld, hquiet⟩ := hphase
      rw [List.reverse_cons, List.append_assoc, List.singleton_append] at horder
      have halive : (s.construct l rest).alive = l :: s.alive := by cases l <;> rfl
      have hpc' : (s.construct l rest).pc = .constructing rest := by cases l <;> rfl
      refine ⟨halive ▸ ⟨rest.reverse, horder.symm⟩, ?_⟩
      rw [hpc', halive]
      exact ⟨horder, hheld.construct l rest, Quiet.construct l rest hquiet⟩
  | @construct_throws l rest hpc =>
      rw [hpc] at hphase
      obtain ⟨horder, hheld, -⟩ := hphase
      rw [List.reverse_cons, List.append_assoc, List.singleton_append] at horder
      refine ⟨hstack, hheld, fun hp => ?_⟩
      -- what is alive is what was declared before `l`
      show Local.delivery_thread ∈ s.alive
      rw [eq_below horder]
      exact of_decide_eq_true hp
  | engine_run hpc =>
      rw [hpc] at hphase
      exact ⟨hstack, hphase.1.symm, hphase.2.1⟩
  | engine_run_throws hpc =>
      rw [hpc] at hphase
      obtain ⟨horder, hheld, -⟩ := hphase
      refine ⟨hstack, hheld, fun _ => ?_⟩
      rw [← show declarations.reverse = s.alive from horder]
      decide
  | completion hpc _ =>
      rw [hpc] at hphase
      obtain ⟨halive, hheld⟩ := hphase
      refine ⟨hstack, ?_⟩
      show Phase s.pc _ _ _
      rw [hpc]
      exact ⟨halive, hheld.running, hheld.guarded, hheld.waiting⟩
  | rx_throws hpc =>
      rw [hpc] at hphase
      obtain ⟨halive, hheld⟩ := hphase
      exact ⟨hstack, hheld, fun _ => halive ▸ mem_declarations .delivery_thread⟩
  | rx_returns hpc _ =>
      rw [hpc] at hphase
      exact ⟨hstack, hphase.1, hphase.2⟩
  | reset hpc =>
      rw [hpc] at hphase
      exact ⟨hstack, hphase.1, hphase.2.running⟩
  | stop hpc =>
      rw [hpc] at hphase
      exact ⟨hstack, rfl, Or.inl (hphase.1 ▸ mem_declarations .delivery_thread)⟩
  | @destroy exit l rest hpc halive hjoin =>
      obtain ⟨hpc', halive', hrunner, -, hstopped⟩ := destroy_frame s l rest
      rw [hpc, halive] at hphase
      rw [halive] at hstack
      constructor
      · rw [halive']
        exact (List.suffix_cons l rest).trans hstack
      rw [hpc', hpc, halive']
      -- the destructor of the thread returns only behind the thread
      have hthread : .delivery_thread ∈ l :: rest →
          .delivery_thread ∈ rest ∨ s.runner = .returned := by
        intro hmem
        by_cases hl : l = .delivery_thread
        · exact Or.inr (hjoin hl)
        · exact Or.inl (List.mem_of_ne_of_mem (Ne.symm hl) hmem)
      cases exit with
      | orderly =>
          refine ⟨hstopped.trans hphase.1, ?_⟩
          rw [hrunner]
          exact hphase.2.elim hthread Or.inr
      | thrown p =>
          obtain ⟨hheld, hpoint⟩ := hphase
          refine ⟨hheld.destroy hstack hjoin, fun hp => ?_⟩
          rcases hthread (hpoint hp) with hmem | hreturned
          · exact hmem
          · -- a thread that waits has not returned
            rcases hheld.waiting with hnone | ⟨-, hwaiting⟩
            · exact absurd (hnone.symm.trans hreturned) (by simp)
            · exact absurd hreturned hwaiting
  | @returns exit hpc halive =>
      rw [hpc, halive] at hphase
      refine ⟨hstack, ?_⟩
      cases exit with
      | orderly => exact ⟨hphase.1, hphase.2.resolve_left List.not_mem_nil⟩
      | thrown p =>
          -- with the thread alive there would be something left to destroy
          by_contra hafter
          rw [Phase, Bool.not_eq_false] at hafter
          exact absurd (hphase.2 hafter) List.not_mem_nil
  | delivery hloop => exact ⟨hstack, hphase.delivery hstack hloop⟩

/-! ## What becomes of a datagram -/

/-- A step, with the receiver's events in it. -/
abbrev Entry := Label × List Event

/-- The handlers a step starts, and those it finishes. -/
def startedIn (entry : Entry) : List RawPacket :=
  match entry.1 with
  | .delivery _ e => e.started
  | _ => []

def finishedIn (entry : Entry) : List RawPacket :=
  match entry.1 with
  | .delivery _ e => e.finished
  | _ => []

/-- The datagrams the callback was invoked with, in the order of reception. -/
def received (log : List Entry) : List RawPacket := log.flatMap fun entry => packetsOf entry.2

def started (log : List Entry) : List RawPacket := log.flatMap startedIn

/-- The datagrams that have been processed. -/
def processed (log : List Entry) : List RawPacket := log.flatMap finishedIn

theorem received_append (log log' : List Entry) :
    received (log ++ log') = received log ++ received log' := List.flatMap_append

theorem started_append (log log' : List Entry) :
    started (log ++ log') = started log ++ started log' := List.flatMap_append

theorem processed_append (log log' : List Entry) :
    processed (log ++ log') = processed log ++ processed log' := List.flatMap_append

/-- **One step of the account.** What is posted goes to the queue, what leaves it
is started, what is started is in flight until it is finished. -/
theorem step_account {s s' : Process S} {l : Label} {events : List Event} (hinv : Inv s)
    (h : ProcessStep eng s l events s') :
    s.ctx.queue ++ packetsOf events = startedIn (l, events) ++ s'.ctx.queue ∧
      s.runner.inFlight ++ startedIn (l, events) =
        finishedIn (l, events) ++ s'.runner.inFlight := by
  obtain ⟨-, hstep⟩ := h
  cases hstep with
  | @construct l rest hpc =>
      have hphase := hinv.phase
      rw [hpc] at hphase
      obtain ⟨-, -, hquiet⟩ := hphase
      have hidle := (Quiet.construct l rest hquiet).inFlight
      have hqueue : (s.construct l rest).ctx.queue = s.ctx.queue := by cases l <;> rfl
      rw [hquiet.inFlight, hidle, hqueue]
      exact ⟨List.append_nil _, rfl⟩
  | destroy hpc halive hjoin =>
      obtain ⟨-, -, hrunner, hqueue, -⟩ := destroy_frame s _ _
      rw [hrunner, hqueue]
      exact ⟨List.append_nil _, List.append_nil _⟩
  | delivery hloop =>
      obtain ⟨hqueue, hflight⟩ := hloop.account
      exact ⟨(List.append_nil _).trans hqueue, hflight⟩
  | completion hpc hcomplete => exact ⟨rfl, List.append_nil _⟩
  | _ => exact ⟨List.append_nil _, List.append_nil _⟩

/-- Once the delivery loop is stopped, nothing is received and nothing is started. -/
theorem step_stopped {s s' : Process S} {l : Label} {events : List Event} (hinv : Inv s)
    (h : ProcessStep eng s l events s') (hstopped : s'.ctx.stopped = true) :
    (l = .stop ∧ events = []) ∨
      (s.ctx.stopped = true ∧ startedIn (l, events) = [] ∧ packetsOf events = []) := by
  obtain ⟨-, hstep⟩ := h
  have hphase := hinv.phase
  cases hstep with
  | @construct l rest hpc =>
      have hsame : (s.construct l rest).ctx.stopped = s.ctx.stopped := by cases l <;> rfl
      exact Or.inr ⟨hsame ▸ hstopped, rfl, rfl⟩
  | completion hpc _ =>
      -- while something can be received, the loop is not stopped
      rw [hpc] at hphase
      exact absurd (hphase.2.running.symm.trans hstopped) (by decide)
  | stop _ => exact Or.inl ⟨rfl, rfl⟩
  | destroy _ _ _ =>
      obtain ⟨-, -, -, -, hsame⟩ := destroy_frame s _ _
      exact Or.inr ⟨hsame ▸ hstopped, rfl, rfl⟩
  | delivery hloop =>
      have hbefore := hloop.flags.1 ▸ hstopped
      exact Or.inr ⟨hbefore, hloop.stopped hbefore, rfl⟩
  | _ => exact Or.inr ⟨hstopped, rfl, rfl⟩

/-- The account of a run. -/
structure Account (log : List Entry) (s : Process S) : Prop where
  inv : Inv s
  posted : received log = started log ++ s.ctx.queue
  inFlight : started log = processed log ++ s.runner.inFlight
  frozen : s.ctx.stopped = true → ∃ before after, log = before ++ (.stop, []) :: after ∧
    started after = [] ∧ received after = []

theorem account_step {log : List Entry} {s s' : Process S} {l : Label} {events : List Event}
    (hacc : Account log s) (h : ProcessStep eng s l events s') :
    Account (log ++ [(l, events)]) s' := by
  obtain ⟨hqueue, hflight⟩ := step_account hacc.inv h
  have hreceived : received (log ++ [(l, events)]) = received log ++ packetsOf events := by
    rw [received_append]
    exact congrArg _ (List.append_nil _)
  have hstarted : started (log ++ [(l, events)]) = started log ++ startedIn (l, events) := by
    rw [started_append]
    exact congrArg _ (List.append_nil _)
  have hprocessed : processed (log ++ [(l, events)]) = processed log ++ finishedIn (l, events) := by
    rw [processed_append]
    exact congrArg _ (List.append_nil _)
  refine ⟨inv_step hacc.inv h, ?_, ?_, ?_⟩
  · rw [hreceived, hstarted, hacc.posted, List.append_assoc, hqueue, List.append_assoc]
  · rw [hstarted, hprocessed, hacc.inFlight, List.append_assoc, hflight, List.append_assoc]
  · intro hstopped
    rcases step_stopped hacc.inv h hstopped with ⟨rfl, rfl⟩ | ⟨hbefore, hnone, hsilent⟩
    · exact ⟨log, [], rfl, rfl, rfl⟩
    · obtain ⟨before, after, rfl, hafter, hafter'⟩ := hacc.frozen hbefore
      refine ⟨before, after ++ [(l, events)], by simp only [List.append_assoc, List.cons_append],
        ?_, ?_⟩
      · rw [started_append, hafter]
        exact (List.append_nil _).trans hnone
      · rw [received_append, hafter']
        exact (List.append_nil _).trans hsilent

theorem account_run {st₀ : EngineState S} {log : List Entry} {s : Process S}
    (h : Run (ProcessStep eng) (initial st₀) log s) : Account log s := by
  refine h.history Account ⟨inv_initial st₀, rfl, rfl, ?_⟩ ?_
  · intro hstopped
    exact absurd hstopped Bool.false_ne_true
  · intro _ _ _ _ _ hacc hstep
    exact account_step hacc hstep

/-- **Shutdown.** When `main` has returned from the orderly path, the datagrams
whose handler had been started before `stop()` have been processed, each once and
in the order of reception; those that were still queued then are dropped. After
`stop()` nothing is received and nothing is started. -/
theorem shutdown_account {st₀ : EngineState S} {log : List Entry} {s : Process S}
    (h : Run (ProcessStep eng) (initial st₀) log s) (hreturned : s.pc = .returned .orderly) :
    ∃ before after dropped, log = before ++ (.stop, []) :: after ∧
      received log = received before ∧
      received before = started before ++ dropped ∧
      processed log = started before ∧
      received after = [] ∧ started after = [] := by
  obtain ⟨⟨-, hphase⟩, hposted, hflight, hfrozen⟩ := account_run h
  rw [hreturned] at hphase
  obtain ⟨hstopped, hrunner⟩ := hphase
  obtain ⟨before, after, rfl, hafter, hafter'⟩ := hfrozen hstopped
  have hreceived : received (before ++ (.stop, []) :: after) = received before := by
    rw [received, List.flatMap_append, List.flatMap_cons, ← received, ← received, hafter']
    exact List.append_nil _
  have hstarted : started (before ++ (.stop, []) :: after) = started before := by
    rw [started, List.flatMap_append, List.flatMap_cons, ← started, ← started, hafter]
    exact List.append_nil _
  rw [hrunner, hstarted] at hflight
  rw [hreceived, hstarted] at hposted
  refine ⟨before, after, s.ctx.queue, rfl, hreceived, hposted, ?_, hafter', hafter⟩
  exact (hflight.trans (List.append_nil _)).symm

/-! ## Who outlives whom -/

/-- The objects a step of `processPacket` uses. It is a member function of the engine
from its beginning to its end, however it ends. -/
def Label.uses : Label → List Local
  | .delivery _ (.start _) => [.engine]
  | .delivery _ (.act a) => a.uses
  | .delivery _ (.finish _) => [.engine]
  | .delivery _ (.throw _) => [.engine]
  | _ => []

/-- A step in which the engine is destroyed only while the delivery loop is quiet:
no handler is running, and none is queued or the loop is stopped. -/
def SafeStep (eng : ProxyEngine F S) (s : Process S) (l : Label) (events : List Event)
    (s' : Process S) : Prop :=
  ProcessStep eng s l events s' ∧ (l = .destroy .engine → Quiet s.ctx s.runner)

/-- Any other step is safe. -/
theorem SafeStep.other {s s' : Process S} {l : Label} {events : List Event}
    (h : ProcessStep eng s l events s') (hl : l ≠ .destroy .engine) : SafeStep eng s l events s' :=
  ⟨h, fun heq => absurd heq hl⟩

/-- The engine is alive, or nothing will use it any more. -/
def Guarded (s : Process S) : Prop := .engine ∈ s.alive ∨ Quiet s.ctx s.runner

theorem guarded_step {s s' : Process S} {l : Label} {events : List Event} (hinv : Inv s)
    (hguarded : Guarded s) (h : SafeStep eng s l events s') : Guarded s' := by
  obtain ⟨⟨-, hstep⟩, hsafe⟩ := h
  have hphase := hinv.phase
  cases hstep with
  | @construct l rest hpc =>
      rw [hpc] at hphase
      exact Or.inr (Quiet.construct l rest hphase.2.2)
  | completion hpc _ =>
      -- the receive loop runs with all objects alive
      rw [hpc] at hphase
      exact Or.inl (hphase.1 ▸ mem_declarations .engine)
  | stop hpc =>
      rw [hpc] at hphase
      exact Or.inl (hphase.1 ▸ mem_declarations .engine)
  | @destroy exit l rest hpc halive hjoin =>
      obtain ⟨-, halive', hrunner, hqueue, hstopped⟩ := destroy_frame s l rest
      have hkeep : Quiet s.ctx s.runner →
          Quiet (s.destroy l rest).ctx (s.destroy l rest).runner := by
        rintro ⟨hidle, hqueued⟩
        refine ⟨hrunner ▸ hidle, ?_⟩
        rw [hstopped, hqueue]
        exact hqueued
      by_cases hl : l = .engine
      · exact Or.inr (hkeep (hsafe (congrArg Label.destroy hl)))
      · rcases hguarded with hengine | hquiet
        · rw [halive] at hengine
          apply Or.inl
          rw [halive']
          exact List.mem_of_ne_of_mem (Ne.symm hl) hengine
        · exact Or.inr (hkeep hquiet)
  | delivery hloop => exact hguarded.imp_right fun hquiet => (hquiet.step hloop).2
  | reset hpc =>
      rw [hpc] at hphase
      exact Or.inl (hphase.1 ▸ mem_declarations .engine)
  | _ => exact hguarded

/-- **No handler outlives the engine** in a run that destroys the engine only while
the delivery loop is quiet: every step of `processPacket` uses objects that are
alive. -/
theorem no_handler_outlives {st₀ : EngineState S} {log : List Entry} {s s' : Process S}
    {l : Label} {events : List Event} (hrun : Run (SafeStep eng) (initial st₀) log s)
    (h : ProcessStep eng s l events s') : ∀ object ∈ Label.uses l, object ∈ s.alive := by
  have hboth : Inv s ∧ Guarded s := by
    apply hrun.invariant (fun s => Inv s ∧ Guarded s)
      ⟨inv_initial st₀, Or.inr ⟨rfl, Or.inr rfl⟩⟩
    rintro s l o s' ⟨hinv, hguarded⟩ hstep
    exact ⟨inv_step hinv hstep.1, guarded_step hinv hguarded hstep⟩
  obtain ⟨hinv, hguarded⟩ := hboth
  obtain ⟨-, hstep⟩ := h
  cases hstep with
  | @delivery nowMs e ctx runner hloop =>
      rcases hguarded with hengine | hquiet
      · -- with the engine, everything else is alive
        rw [all_of_engine hinv.stack hengine]
        exact fun object _ => mem_declarations object
      · obtain ⟨rfl, -⟩ := hquiet.step hloop
        intro object hobject
        exact absurd hobject List.not_mem_nil
  | _ =>
      intro object hobject
      exact absurd hobject List.not_mem_nil

/-! ## Runs -/

theorem not_ended {s : Process S} {runner : Runner RawPacket Action} (h : s.runner = runner)
    (hrunner : ∀ input, runner ≠ .terminated input) : ¬ s.ended := by
  rintro ⟨input, hterminated⟩
  exact hrunner input (h.symm.trans hterminated)

/-- The process after the declarations `done`, with `rest` still to come. -/
def declared (done rest : List Local) (st₀ : EngineState S) : Process S where
  pc := .constructing rest
  alive := done.reverse
  rx := if .engine ∈ done then UdpMulticastReceiver.set_callback {} else {}
  ctx := { guarded := decide (.delivery_work_guard ∈ done) }
  runner := if .delivery_thread ∈ done then .idle else .notStarted
  state := st₀

theorem declared_live (done rest : List Local) (st₀ : EngineState S) :
    ¬ (declared done rest st₀).ended := by
  rintro ⟨input, hterminated⟩
  rw [declared] at hterminated
  split_ifs at hterminated

/-- The declarations, executed without an exception. -/
theorem run_declarations (st₀ : EngineState S) {done rest : List Local}
    (h : declarations = done ++ rest) :
    Run (SafeStep eng) (initial st₀) (done.map fun l => (Label.construct l, []))
      (declared done rest st₀) := by
  induction done using List.reverseRecOn generalizing rest with
  | nil =>
      rw [List.nil_append] at h
      rw [← h]
      exact .nil
  | append_singleton done l ih =>
      rw [List.append_assoc, List.singleton_append] at h
      rw [List.map_append, List.map_singleton]
      have hnext : (declared done (l :: rest) st₀).construct l rest =
          declared (done ++ [l]) rest st₀ := by
        simp only [declared, List.reverse_append, List.reverse_singleton, List.singleton_append,
          List.mem_append, List.mem_singleton]
        cases l with
        | engine =>
            simp only [Process.construct, reduceCtorEq, or_false, or_true, if_true]
            split_ifs <;> rfl
        | _ => simp only [Process.construct, reduceCtorEq, or_false, or_true, if_true] <;> rfl
      have hstep : Step eng (declared done (l :: rest) st₀) (.construct l) []
          ((declared done (l :: rest) st₀).construct l rest) := .construct rfl
      rw [hnext] at hstep
      exact (ih h).snoc (.other ⟨declared_live _ _ _, hstep⟩ (by simp))

/-- The steps that bring the process up. -/
def startup : List Entry :=
  declarations.map (fun l => (Label.construct l, [])) ++ [(.engine_run, [])]

/-- The process is up: the receive loop runs, and the delivery thread is between two
handlers, with this queue. -/
structure Receiving (s : Process S) (st : EngineState S) (queue : List RawPacket) : Prop where
  pc : s.pc = .receiving
  alive : s.alive = declarations.reverse
  callback : s.rx.callback_ = true
  pending : s.rx.pending = 1
  running : s.ctx.stopped = false
  queue : s.ctx.queue = queue
  runner : s.runner = .idle
  state : s.state = st

theorem Receiving.live {s : Process S} {st : EngineState S} {queue : List RawPacket}
    (h : Receiving s st queue) : ¬ s.ended := not_ended h.runner (by simp)

/-- The process comes up. -/
theorem run_startup (eng : ProxyEngine F S) (st₀ : EngineState S) :
    ∃ s, Run (SafeStep eng) (initial st₀) startup s ∧ Receiving s st₀ [] := by
  have hrun := @run_declarations F _ S eng st₀ _ _ (List.append_nil declarations).symm
  have hlive := declared_live declarations [] st₀
  exact ⟨_, hrun.snoc (.other ⟨hlive, .engine_run rfl⟩ (by simp)),
    ⟨rfl, rfl, rfl, rfl, rfl, rfl, rfl, rfl⟩⟩

/-- A packet as the receiver makes it of a datagram. -/
structure Receivable (input : RawPacket) : Prop where
  destination : input.destinationLradId = 0
  fits : input.data.length ≤ 4096

/-- A datagram is received, and queued. -/
theorem Receiving.receive {s : Process S} {st : EngineState S} {queue : List RawPacket}
    (h : Receiving s st queue) {input : RawPacket} (hinput : Receivable input) :
    ∃ c events s', SafeStep eng s (.completion c) events s' ∧
      Receiving s' st (queue ++ [input]) ∧ packetsOf events = [input] := by
  -- the socket completes the receive with the bytes of the datagram
  obtain ⟨⟨rx, events⟩, hcomplete⟩ : ∃ o, complete eng.rt.asio
      { ec := Tcp.ErrorCode.none, received := input.data, sender := {}, fits := hinput.fits } s.rx
        = some o := by
    rw [complete, h.pending]
    exact ⟨_, rfl⟩
  obtain ⟨-, hcallback, hpending, hinvocations⟩ := complete_cases hcomplete
  have hpackets : packetsOf events = [input] := by
    rw [packetsOf, hinvocations, h.callback]
    show [({ data := input.data } : RawPacket)] = [input]
    rw [← hinput.destination]
  have hqueue : (s.ctx.post (packetsOf events)).queue = queue ++ [input] := by
    rw [IoContext.post, h.queue, hpackets]
  exact ⟨_, events, _, .other ⟨h.live, .completion h.pc hcomplete⟩ (by simp),
    ⟨h.pc, h.alive, hcallback.trans h.callback, hpending.trans h.pending, h.running, hqueue,
      h.runner, h.state⟩, hpackets⟩

/-- Any datagrams are received, and none is looked at. -/
theorem run_queued (eng : ProxyEngine F S) (st₀ : EngineState S) {inputs : List RawPacket}
    (hinputs : ∀ input ∈ inputs, Receivable input) :
    ∃ log s, Run (SafeStep eng) (initial st₀) log s ∧ Receiving s st₀ inputs ∧
      received log = inputs ∧ processed log = [] := by
  induction inputs using List.reverseRecOn with
  | nil =>
      obtain ⟨s, hrun, hs⟩ := run_startup eng st₀
      exact ⟨_, s, hrun, hs, rfl, rfl⟩
  | append_singleton inputs input ih =>
      obtain ⟨hbefore, hinput⟩ := List.forall_mem_append.mp hinputs
      obtain ⟨log, s, hrun, hs, hreceived, hprocessed⟩ := ih hbefore
      obtain ⟨c, events, s', hstep, hs', hpackets⟩ :=
        @Receiving.receive F _ S eng s _ _ hs input (hinput input (List.mem_singleton_self _))
      refine ⟨_, s', hrun.snoc hstep, hs', ?_, ?_⟩
      · rw [received_append, hreceived]
        exact congrArg (inputs ++ ·) ((List.append_nil _).trans hpackets)
      · rw [processed_append, hprocessed]
        rfl

/-- The first datagram of the queue is taken up. -/
theorem Receiving.start {s : Process S} {st : EngineState S} {input : RawPacket}
    {queue : List RawPacket} (h : Receiving s st (input :: queue)) (nowMs : UInt64) :
    SafeStep eng s (.delivery nowMs (.start input)) []
      { s with
        ctx := { s.ctx with queue := queue }
        runner := .running input (handler eng input st).1 (handler eng input st).2 } := by
  have hloop : LoopStep (fun input => handler eng input s.state) s.ctx s.runner (.start input)
      { s.ctx with queue := queue }
      (.running input (handler eng input st).1 (handler eng input st).2) := by
    rw [h.runner, ← h.state]
    exact .start h.running h.queue
  exact .other ⟨h.live, .delivery hloop⟩ (by simp)

/-- The steps of a handler that performs these actions. -/
def acting (nowMs : UInt64) (actions : List Action) : List Entry :=
  actions.map fun a => (Label.delivery nowMs (.act a), [])

theorem processed_acting (nowMs : UInt64) (actions : List Action) :
    processed (acting nowMs actions) = [] := by
  rw [processed, acting, List.flatMap_map, List.flatMap_eq_nil_iff]
  exact fun _ _ => rfl

/-- A handler performs its actions. -/
theorem run_actions {s : Process S} {input : RawPacket} {actions rest : List Action}
    {ending : Ending} (h : s.runner = .running input (actions ++ rest) ending) (nowMs : UInt64) :
    Run (SafeStep eng) s (acting nowMs actions)
      { s with
        runner := .running input rest ending
        state := performAll eng nowMs actions s.state } := by
  induction actions generalizing s with
  | nil =>
      rw [List.nil_append] at h
      rw [← h]
      exact .nil
  | cons a actions ih =>
      have hact : LoopStep (fun input => handler eng input s.state) s.ctx s.runner
          (.act a) s.ctx (.running input (actions ++ rest) ending) := by
        rw [h]
        exact .act
      have hstep : SafeStep eng s (.delivery nowMs (.act a)) []
          { s with
            runner := .running input (actions ++ rest) ending
            state := a.perform eng nowMs s.state } :=
        .other ⟨not_ended h (by simp), .delivery hact⟩ (by simp)
      exact (Run.single hstep).append (@ih
        { s with
          runner := .running input (actions ++ rest) ending
          state := a.perform eng nowMs s.state } rfl)

/-- A handler runs through its actions, and ends. -/
theorem run_handler {s : Process S} {input : RawPacket} {actions : List Action}
    (h : s.runner = .running input actions .returns) (nowMs : UInt64) :
    Run (SafeStep eng) s (acting nowMs actions ++ [(.delivery nowMs (.finish input), [])])
      { s with runner := .idle, state := performAll eng nowMs actions s.state } := by
  have hacted := @run_actions F _ S eng s input actions [] .returns
    (h.trans (by rw [List.append_nil])) nowMs
  exact hacted.snoc (.other ⟨not_ended rfl (by simp), .delivery .finish⟩ (by simp))

/-- A handler runs through its actions, and an exception leaves it. -/
theorem run_throwing {s : Process S} {input : RawPacket} {actions : List Action}
    (h : s.runner = .running input actions .throws) (nowMs : UInt64) :
    Run (SafeStep eng) s (acting nowMs actions ++ [(.delivery nowMs (.throw input), [])])
      { s with
        runner := .terminated input
        state := performAll eng nowMs actions s.state } := by
  have hacted := @run_actions F _ S eng s input actions [] .throws
    (h.trans (by rw [List.append_nil])) nowMs
  exact hacted.snoc (.other ⟨not_ended rfl (by simp), .delivery .throw⟩ (by simp))

/-- All of them. -/
theorem proxy_run (eng : ProxyEngine F S) (st₀ : EngineState S) :
    Run (ProcessStep eng) (initial st₀) (declarations.map fun l => (Label.construct l, []))
      (declared declarations [] st₀) :=
  (run_declarations st₀ (List.append_nil _).symm).mono fun _ _ _ _ h => h.1

/-- The destructors from the youngest object on, past the thread's only if it has
returned. -/
theorem run_destructors {s₀ s : Process S} {log : List Entry} {exit : Exit}
    {done rest : List Local} (h : Run (ProcessStep eng) s₀ log s) (hpc : s.pc = .leaving exit)
    (halive : s.alive = done ++ rest) (hlive : ¬ s.ended)
    (hjoin : .delivery_thread ∈ done → s.runner = .returned) :
    ∃ s', Run (ProcessStep eng) s₀ (log ++ done.map fun l => (Label.destroy l, [])) s' ∧
      s'.pc = .leaving exit ∧ s'.alive = rest ∧ s'.runner = s.runner := by
  induction done generalizing log s with
  | nil => exact ⟨s, by rwa [List.map_nil, List.append_nil], hpc, halive, rfl⟩
  | cons l done ih =>
      obtain ⟨hpc', halive', hrunner, -, -⟩ := destroy_frame s l (done ++ rest)
      have hstep : ProcessStep eng s (.destroy l) [] (s.destroy l (done ++ rest)) :=
        ⟨hlive, .destroy hpc halive fun hl => hjoin (hl ▸ List.mem_cons_self)⟩
      have hlive' := not_ended hrunner fun input h => hlive ⟨input, h⟩
      obtain ⟨s', hrun, hpc'', halive'', hrunner'⟩ := ih (h.snoc hstep) (hpc'.trans hpc) halive'
        hlive' fun hmem => hrunner.trans (hjoin (List.mem_cons_of_mem l hmem))
      refine ⟨s', ?_, hpc'', halive'', hrunner'.trans hrunner⟩
      rwa [List.map_cons, ← List.singleton_append, ← List.append_assoc]

/-- The receive loop ends with an error, and `main` goes on to `stop()`. -/
theorem run_to_stop {s₀ s : Process S} {log : List Entry} (h : Run (SafeStep eng) s₀ log s)
    (hpc : s.pc = .receiving) (hpending : s.rx.pending = 1) (hlive : ¬ s.ended) :
    ∃ tail s', Run (SafeStep eng) s₀ (log ++ tail) s' ∧
      received tail = [] ∧ processed tail = [] ∧
      s'.pc = .leaving .orderly ∧ s'.alive = s.alive ∧ s'.runner = s.runner ∧
      s'.ctx.stopped = true := by
  obtain ⟨⟨rx, events⟩, hcomplete⟩ : ∃ o, complete eng.rt.asio oversized s.rx = some o := by
    rw [complete, hpending]
    exact ⟨_, rfl⟩
  obtain ⟨-, -, hpending', hinvocations⟩ := complete_cases hcomplete
  have hsilent : packetsOf events = [] := by
    rw [packetsOf, hinvocations]
    exact congrArg (List.map Prod.fst) (ite_self _)
  have hzero : rx.pending = 0 := by
    rw [hpending', hpending]
    rfl
  have hfailed := h.snoc (.other ⟨hlive, .completion hpc hcomplete⟩ (by simp))
  have hreturned := hfailed.snoc (.other ⟨hlive, .rx_returns hpc hzero⟩ (by simp))
  have hreset := hreturned.snoc (.other ⟨hlive, .reset rfl⟩ (by simp))
  have hstopped := hreset.snoc (.other ⟨hlive, .stop rfl⟩ (by simp))
  simp only [List.append_assoc, List.cons_append, List.nil_append] at hstopped
  refine ⟨_, _, hstopped, ?_, rfl, rfl, rfl, rfl, rfl⟩
  rw [received, List.flatMap_cons, hsilent]
  rfl

/-! ## An exception after the thread has been created -/

/-- While the main thread joins after an exception, the delivery loop waits for work. -/
theorem joining_held {st₀ : EngineState S} {log : List Entry} {s : Process S} {p : Point}
    (h : Run (ProcessStep eng) (initial st₀) log s) (hjoining : s.joining (.thrown p)) :
    s.ctx.stopped = false ∧ s.ctx.guarded = true := by
  obtain ⟨hstack, hphase⟩ := (account_run h).inv
  obtain ⟨hpc, hhead⟩ := hjoining
  rw [hpc] at hphase
  have hthread : .delivery_thread ∈ s.alive := List.mem_of_mem_head? hhead
  exact ⟨hphase.1.running, hphase.1.guarded (guard_of_thread hstack hthread)⟩

/-- Unwinding comes to the join. -/
theorem unwinds_to_join {s₀ s : Process S} {log : List Entry} {exit : Exit}
    (h : Run (ProcessStep eng) s₀ log s) (hpc : s.pc = .leaving exit) (hlive : ¬ s.ended)
    (hthread : .delivery_thread ∈ s.alive) :
    ∃ log' s', Run (ProcessStep eng) s₀ log' s' ∧ s'.joining exit := by
  obtain ⟨done, rest, halive, hnotin⟩ := List.eq_append_cons_of_mem hthread
  obtain ⟨s', hrun, hpc', halive', -⟩ := run_destructors h hpc halive hlive
    fun hmem => absurd hmem hnotin
  refine ⟨_, s', hrun, hpc', ?_⟩
  rw [halive', List.head?_cons]

/-- At every point behind the creation of the thread, an exception leads to the join. -/
theorem join_reached (eng : ProxyEngine F S) (st₀ : EngineState S) {p : Point}
    (hp : afterThread p = true) :
    ∃ log s, Run (ProcessStep eng) (initial st₀) log s ∧ s.joining (.thrown p) := by
  have hrun := proxy_run eng st₀
  have hlive := declared_live declarations [] st₀
  cases p with
  | construct l =>
      obtain ⟨rest, horder⟩ : ∃ rest, declarations = (below l).reverse ++ l :: rest := by
        cases l <;> exact ⟨_, rfl⟩
      have hthread : .delivery_thread ∈ below l := of_decide_eq_true hp
      have hrun' := (@run_declarations F _ S eng st₀ _ _ horder).mono fun _ _ _ _ h => h.1
      have hlive := declared_live (below l).reverse (l :: rest) st₀
      refine unwinds_to_join (hrun'.snoc ⟨hlive, .construct_throws rfl⟩) rfl hlive ?_
      show Local.delivery_thread ∈ (below l).reverse.reverse
      rwa [List.reverse_reverse]
  | engine_run =>
      exact unwinds_to_join (hrun.snoc ⟨hlive, .engine_run_throws rfl⟩) rfl hlive
        (mem_declarations .delivery_thread)
  | rx_run =>
      have hreceiving := hrun.snoc ⟨hlive, .engine_run rfl⟩
      exact unwinds_to_join (hreceiving.snoc ⟨hlive, .rx_throws rfl⟩) rfl hlive
        (mem_declarations .delivery_thread)

/-- **A failure deadlocks the process.** Whatever throws once the delivery thread
has been created, the main thread comes to the join, and there the delivery loop
is neither stopped nor without a guard: `main` never returns from that exception. -/
theorem failure_deadlocks (eng : ProxyEngine F S) (st₀ : EngineState S) (p : Point)
    (hp : afterThread p = true) :
    (∃ log s, Run (ProcessStep eng) (initial st₀) log s ∧ s.joining (.thrown p)) ∧
    ∀ log s, Run (ProcessStep eng) (initial st₀) log s →
      (s.joining (.thrown p) → ¬ (s.ctx.stopped = true ∨ s.ctx.guarded = false)) ∧
      s.pc ≠ .returned (.thrown p) := by
  refine ⟨join_reached eng st₀ hp, fun log s hrun => ⟨?_, ?_⟩⟩
  · intro hjoining
    obtain ⟨hstopped, hguarded⟩ := joining_held hrun hjoining
    rw [hstopped, hguarded]
    decide
  · intro hpc
    have hphase := (account_run hrun).inv.phase
    rw [hpc] at hphase
    exact absurd (hp.symm.trans hphase) (by decide)

end

/-! ## Exits of one proxy -/

section

open Reference (engine)

/-- The objects of the proxy of these runs, which knows LRAD 1. -/
def objects : EngineState (List SendResult) := { sender := [] }

/-- Of an exception in `rx_io_ctx.run()`. -/
theorem failure_deadlocks_rx_run : ∃ log s,
    Run (ProcessStep (engine [1])) (initial objects) log s ∧ s.joining (.thrown .rx_run) :=
  (failure_deadlocks (engine [1]) objects .rx_run rfl).1

/-- **The receiver cannot be constructed**: the main thread waits for a thread that
waits for work. -/
theorem receiver_failure_hangs : ∃ log s,
    Run (ProcessStep (engine [1])) (initial objects) log s ∧
    s.joining (.thrown (.construct .receiver)) ∧ s.ctx.stopped = false ∧ s.ctx.guarded = true := by
  obtain ⟨log, s, hrun, hjoining⟩ :=
    @join_reached _ _ _ (engine [1]) objects (.construct .receiver) (by decide)
  exact ⟨log, s, hrun, hjoining, joining_held hrun hjoining⟩

/-- The datagram of these runs: two orders, of which the second is for another LRAD. -/
def packet : RawPacket := Reference.twoBlocks

theorem receivable_packet : Receivable packet := ⟨rfl, by decide⟩

/-- The proxy has received the datagram; its handler is queued. -/
theorem one_received : ∃ log s, Run (SafeStep (engine [1])) (initial objects) log s ∧
    Receiving s objects [packet] ∧ received log = [packet] ∧ processed log = [] :=
  run_queued (engine [1]) objects (List.forall_mem_singleton.mpr receivable_packet)

/-- The proxy is stopped with the datagram still queued, and `main` returns. -/
theorem one_dropped : ∃ log s, Run (ProcessStep (engine [1])) (initial objects) log s ∧
    s.pc = .returned .orderly ∧ received log = [packet] ∧ processed log = [] := by
  obtain ⟨log, s, hrun, hs, hreceived, hprocessed⟩ := one_received
  obtain ⟨tail, s₁, hrun₁, hsilent, hnone, hpc₁, halive₁, hrunner₁, hstopped⟩ :=
    run_to_stop hrun hs.pc hs.pending hs.live
  rw [hs.runner] at hrunner₁
  have hlive₁ := not_ended hrunner₁ (by simp)
  -- the delivery thread finds the loop stopped
  have hleave : LoopStep (fun input => handler (engine [1]) input s₁.state) s₁.ctx s₁.runner
      .leave s₁.ctx .returned := by
    rw [hrunner₁]
    exact .leave (Or.inl hstopped)
  have hstep : ProcessStep (engine [1]) s₁ (.delivery 0 .leave) [] _ := ⟨hlive₁, .delivery hleave⟩
  have hrun₂ := (hrun₁.mono fun _ _ _ _ h => h.1).snoc hstep
  obtain ⟨s₃, hrun₃, hpc₃, halive₃, hrunner₃⟩ := run_destructors hrun₂ hpc₁
    ((halive₁.trans hs.alive).trans (List.append_nil _).symm) (not_ended rfl (by simp)) fun _ => rfl
  have hlive₃ := not_ended hrunner₃ (by simp)
  refine ⟨_, _, hrun₃.snoc ⟨hlive₃, .returns hpc₃ halive₃⟩, rfl, ?_, ?_⟩
  · simp only [received_append, hreceived, hsilent]
    rfl
  · simp only [processed_append, hprocessed, hnone]
    rfl

/-- **A datagram is lost**: the callback has run for it, `main` has returned from the
orderly path, and it has not been processed. -/
theorem queued_datagram_dropped : ∃ log s,
    Run (ProcessStep (engine [1])) (initial objects) log s ∧ s.pc = .returned .orderly ∧
    packet ∈ received log ∧ packet ∉ processed log := by
  obtain ⟨log, s, hrun, hpc, hreceived, hprocessed⟩ := one_dropped
  refine ⟨log, s, hrun, hpc, ?_, ?_⟩
  · rw [hreceived]
    exact List.mem_singleton_self packet
  · rw [hprocessed]
    exact List.not_mem_nil

/-- What the account says of such an exit. -/
theorem shutdown_account_one : ∃ log s,
    Run (ProcessStep (engine [1])) (initial objects) log s ∧ s.pc = .returned .orderly ∧
    ∃ before after dropped, log = before ++ (.stop, []) :: after ∧
      received log = received before ∧
      received before = started before ++ dropped ∧
      processed log = started before ∧
      received after = [] ∧ started after = [] := by
  obtain ⟨log, s, hrun, hpc, -, -⟩ := one_dropped
  exact ⟨log, s, hrun, hpc, shutdown_account hrun hpc⟩

/-- The handler of the datagram returns, and the first thing it does is to read the
system state. -/
theorem handler_packet : ∃ rest,
    handler (engine [1]) packet objects = (.getSnapshot :: rest, .returns) := by
  obtain ⟨⟨st, effects⟩, hstep, -⟩ := exists_ok_of_map
    (show (processPacket (engine [1]) 0 packet objects).toOption.map (fun _ => ()) = some () by
      decide)
  rw [handler, hstep]
  exact ⟨_, rfl⟩

/-- The handler of the datagram has been started. -/
theorem one_started : ∃ log s, Run (SafeStep (engine [1])) (initial objects) log s ∧
    received log = [packet] ∧ processed log = [] ∧
    s.pc = .receiving ∧ s.alive = declarations.reverse ∧ s.rx.pending = 1 ∧
    ∃ rest, handler (engine [1]) packet objects = (.getSnapshot :: rest, .returns) ∧
      s.runner = .running packet (.getSnapshot :: rest) .returns := by
  obtain ⟨log, s, hrun, hs, hreceived, hprocessed⟩ := one_received
  obtain ⟨rest, hrest⟩ := handler_packet
  have hstarted := hrun.snoc (hs.start 0)
  refine ⟨_, _, hstarted, ?_, ?_, hs.pc, hs.alive, hs.pending, rest, hrest,
    by rw [hrest]⟩
  · rw [received_append, hreceived]
    rfl
  · rw [processed_append, hprocessed]
    rfl

/-- The datagram is processed, and the engine is destroyed behind that. -/
theorem no_handler_outlives_started : ∃ log s,
    Run (SafeStep (engine [1])) (initial objects) log s ∧ processed log = [packet] ∧
    (.destroy .engine, []) ∈ log ∧
    ∀ l events s', ProcessStep (engine [1]) s l events s' →
      ∀ object ∈ Label.uses l, object ∈ s.alive := by
  obtain ⟨log, s, hrun, -, hprocessed, hpc, halive, hpending, rest, -, hrunner⟩ := one_started
  have hhandled := hrun.append (run_handler hrunner 0)
  obtain ⟨tail, s₁, hrun₁, -, hnone, hpc₁, halive₁, hrunner₁, hstopped⟩ :=
    run_to_stop hhandled hpc hpending (not_ended rfl (by simp))
  have hquiet : Quiet s₁.ctx s₁.runner := ⟨by rw [hrunner₁]; rfl, Or.inl hstopped⟩
  have hdestroyed := hrun₁.snoc ⟨⟨not_ended hrunner₁ (by simp),
    .destroy hpc₁ (halive₁.trans halive) fun h => absurd h (by decide)⟩, fun _ => hquiet⟩
  refine ⟨_, _, hdestroyed, ?_, List.mem_append_right _ (List.mem_singleton_self _),
    fun l events s' hstep => no_handler_outlives hdestroyed hstep⟩
  simp only [processed_append, hprocessed, hnone, processed_acting]
  rfl

/-- **The receive loop ends while a handler is running**: `main` destroys the engine,
and the handler goes on to read the system state through it. -/
theorem handler_outlives_engine : ∃ log s s',
    Run (ProcessStep (engine [1])) (initial objects) log s ∧
    ProcessStep (engine [1]) s (.delivery 0 (.act .getSnapshot)) [] s' ∧
    .engine ∈ Label.uses (.delivery 0 (.act .getSnapshot)) ∧ .engine ∉ s.alive := by
  obtain ⟨log, s, hrun, -, -, hpc, halive, hpending, rest, -, hrunner⟩ := one_started
  have hlive := not_ended hrunner (by simp)
  obtain ⟨tail, s₁, hrun₁, -, -, hpc₁, halive₁, hrunner₁, -⟩ := run_to_stop hrun hpc hpending hlive
  rw [halive] at halive₁
  rw [hrunner] at hrunner₁
  have hlive₁ := not_ended hrunner₁ (by simp)
  -- the engine is the youngest object
  have hrun₂ := (hrun₁.mono fun _ _ _ _ h => h.1).snoc
    ⟨hlive₁, .destroy hpc₁ halive₁ (fun h => absurd h (by decide))⟩
  have hact : LoopStep (fun input => handler (engine [1]) input s₁.state) s₁.ctx s₁.runner
      (.act .getSnapshot) s₁.ctx (.running packet rest .returns) := by
    rw [hrunner₁]
    exact .act
  refine ⟨_, _, _, hrun₂, ⟨hlive₁, .delivery hact⟩, List.mem_cons_self, ?_⟩
  show Local.engine ∉ declarations.reverse.tail
  decide

end

end CmsProxy.Shutdown
