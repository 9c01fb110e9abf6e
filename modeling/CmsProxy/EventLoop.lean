/-
An event loop with one thread.

Handlers are posted to a queue and one thread runs them, in the order of the
queue and one at a time. A handler is a script: the actions it performs, and how
it ends. The loop returns when it has been stopped, or when nothing is queued and
no work guard keeps it waiting; stopping does not interrupt a handler that is
running, but no other is started. These are the rules of `io_context::run`, with
names for what the thread does (`LoopEvent`), so that a history of a larger
system can be read for what became of each handler.

The lemmas about a step are the account, the freeze and the script: whatever leaves
the queue is in flight until it is finished (`LoopStep.account`), once the loop is
stopped nothing leaves the queue (`LoopStep.stopped`), and what has been performed of
a script and what is left of it make up the script (`LoopStep.underway`).
-/
import Mathlib.Tactic

set_option autoImplicit false

namespace CmsProxy.EventLoop

/-- How a handler ends after its last action. -/
inductive Ending where
  | returns
  | throws
  /-- It does not end. -/
  | hangs
  deriving DecidableEq

section

variable {H A : Type*}

/-- The shared part: what other threads see and change. -/
structure IoContext (H : Type*) where
  queue : List H := []
  stopped : Bool := false
  guarded : Bool := false

/-- Handlers are posted, in this order. -/
def IoContext.post (hs : List H) (ctx : IoContext H) : IoContext H :=
  { ctx with queue := ctx.queue ++ hs }

def IoContext.stop (ctx : IoContext H) : IoContext H := { ctx with stopped := true }

/-- What is done to the work guard. -/
def IoContext.setGuard (held : Bool) (ctx : IoContext H) : IoContext H :=
  { ctx with guarded := held }

/-- Where the thread is. -/
inductive Runner (H A : Type*) where
  | notStarted
  /-- In `run()`, between two handlers. -/
  | idle
  /-- In handler `h`, with the actions `rest` still to perform. -/
  | running (h : H) (rest : List A) (ending : Ending)
  /-- `run()` has returned. -/
  | returned
  /-- An exception has left handler `h`, and with it the thread. -/
  | terminated (h : H)

/-- What the thread does. -/
inductive LoopEvent (H A : Type*) where
  | start (h : H)
  | act (a : A)
  | finish (h : H)
  | throw (h : H)
  | leave

/-- The steps of the thread; `script` says what a handler does when it is started. -/
inductive LoopStep (script : H → List A × Ending) :
    IoContext H → Runner H A → LoopEvent H A → IoContext H → Runner H A → Prop
  | start {ctx : IoContext H} {h : H} {queue : List H} :
      ctx.stopped = false → ctx.queue = h :: queue →
      LoopStep script ctx .idle (.start h) { ctx with queue := queue }
        (.running h (script h).1 (script h).2)
  | act {ctx : IoContext H} {h : H} {a : A} {rest : List A} {ending : Ending} :
      LoopStep script ctx (.running h (a :: rest) ending) (.act a) ctx (.running h rest ending)
  | finish {ctx : IoContext H} {h : H} :
      LoopStep script ctx (.running h [] .returns) (.finish h) ctx .idle
  | throw {ctx : IoContext H} {h : H} :
      LoopStep script ctx (.running h [] .throws) (.throw h) ctx (.terminated h)
  | leave {ctx : IoContext H} :
      ctx.stopped = true ∨ (ctx.guarded = false ∧ ctx.queue = []) →
      LoopStep script ctx .idle .leave ctx .returned

/-! ## The account -/

/-- The handler that has been started and not finished. -/
def Runner.inFlight : Runner H A → List H
  | .running h _ _ => [h]
  | .terminated h => [h]
  | _ => []

def LoopEvent.started : LoopEvent H A → List H
  | .start h => [h]
  | _ => []

def LoopEvent.finished : LoopEvent H A → List H
  | .finish h => [h]
  | _ => []

variable {script : H → List A × Ending} {ctx ctx' : IoContext H} {runner runner' : Runner H A}
variable {e : LoopEvent H A}

/-- **The account.** What leaves the queue is started, and what is started is in
flight until it is finished. -/
theorem LoopStep.account (h : LoopStep script ctx runner e ctx' runner') :
    ctx.queue = e.started ++ ctx'.queue ∧
      runner.inFlight ++ e.started = e.finished ++ runner'.inFlight := by
  cases h with
  | start _ hqueue => exact ⟨hqueue, rfl⟩
  | act => exact ⟨rfl, rfl⟩
  | finish => exact ⟨rfl, rfl⟩
  | throw => exact ⟨rfl, rfl⟩
  | leave _ => exact ⟨rfl, rfl⟩

/-- The thread changes the queue only. -/
theorem LoopStep.flags (h : LoopStep script ctx runner e ctx' runner') :
    ctx'.stopped = ctx.stopped ∧ ctx'.guarded = ctx.guarded := by
  cases h <;> exact ⟨rfl, rfl⟩

/-- **The freeze.** Once the loop is stopped, no handler is started. -/
theorem LoopStep.stopped (h : LoopStep script ctx runner e ctx' runner')
    (hstopped : ctx.stopped = true) : e.started = [] := by
  cases h with
  | start hrunning _ => exact absurd (hstopped.symm.trans hrunning) (by decide)
  | _ => rfl

/-- A loop that is not stopped and has a guard does not return. -/
theorem LoopStep.returned (h : LoopStep script ctx runner e ctx' .returned) :
    ctx.stopped = true ∨ (ctx.guarded = false ∧ ctx.queue = []) := by
  cases h with
  | leave hleave => exact hleave

/-! ## Scripts -/

/-- The action that is performed. -/
def LoopEvent.acted : LoopEvent H A → List A
  | .act a => [a]
  | _ => []

/-- What the handler in progress has performed of its script. -/
inductive Underway (script : H → List A × Ending) : Runner H A → List A → Prop
  | between {runner : Runner H A} : runner.inFlight = [] → Underway script runner []
  | running {h : H} {done rest : List A} {ending : Ending} :
      script h = (done ++ rest, ending) → Underway script (.running h rest ending) done
  | terminated {h : H} {done : List A} :
      script h = (done, .throws) → Underway script (.terminated h) done

/-- Only a handler in progress performs an action, and it performs the next. -/
theorem LoopStep.of_act {a : A} (h : LoopStep script ctx runner (.act a) ctx' runner') :
    ∃ h' rest ending, runner = .running h' (a :: rest) ending := by
  cases h with
  | act => exact ⟨_, _, _, rfl⟩

/-- Between two handlers nothing has been performed. -/
theorem Underway.eq_nil {done : List A} (h : Underway script runner done)
    (hidle : runner.inFlight = []) : done = [] := by
  cases h with
  | between _ => rfl
  | running _ => exact absurd hidle (List.cons_ne_nil _ _)
  | terminated _ => exact absurd hidle (List.cons_ne_nil _ _)

/-- **The script.** A handler is finished when it has performed its script, and until
then it performs it action by action. Scripts may change between two handlers. -/
theorem LoopStep.underway {script' : H → List A × Ending} {done : List A}
    (hunderway : Underway script' runner done) (hscript : runner.inFlight = [] → script = script')
    (h : LoopStep script ctx runner e ctx' runner') :
    (∃ h', e = .finish h' ∧ script' h' = (done, .returns) ∧ runner' = .idle) ∨
      (e.finished = [] ∧ Underway script' runner' (done ++ e.acted)) := by
  cases h with
  | @start h' queue _ _ =>
      obtain rfl := hscript rfl
      cases hunderway with
      | between _ => exact Or.inr ⟨rfl, .running rfl⟩
  | act =>
      cases hunderway with
      | between hidle => exact absurd hidle (List.cons_ne_nil _ _)
      | running hall =>
          refine Or.inr ⟨rfl, .running ?_⟩
          rw [hall, LoopEvent.acted, List.append_assoc, List.singleton_append]
  | finish =>
      cases hunderway with
      | between hidle => exact absurd hidle (List.cons_ne_nil _ _)
      | running hall =>
          rw [List.append_nil] at hall
          exact Or.inl ⟨_, rfl, hall, rfl⟩
  | throw =>
      cases hunderway with
      | between hidle => exact absurd hidle (List.cons_ne_nil _ _)
      | running hall =>
          rw [List.append_nil] at hall
          refine Or.inr ⟨rfl, .terminated ?_⟩
          rw [hall]
          exact congrArg (·, _) (List.append_nil done).symm
  | leave _ =>
      cases hunderway with
      | between _ => exact Or.inr ⟨rfl, .between rfl⟩

/-! ## Quiet loops -/

/-- No handler is running, and as long as nothing is posted none will be started. -/
structure Quiet (ctx : IoContext H) (runner : Runner H A) : Prop where
  inFlight : runner.inFlight = []
  queued : ctx.stopped = true ∨ ctx.queue = []

/-- All a quiet loop can do is to leave `run()`, and then it is still quiet. -/
theorem Quiet.step (hquiet : Quiet ctx runner) (h : LoopStep script ctx runner e ctx' runner') :
    e = .leave ∧ Quiet ctx' runner' := by
  cases h with
  | start hrunning hqueue =>
      rcases hquiet.queued with hstopped | hempty
      · exact absurd (hstopped.symm.trans hrunning) (by decide)
      · exact absurd (hqueue.symm.trans hempty) (List.cons_ne_nil _ _)
  | act => exact absurd hquiet.inFlight (List.cons_ne_nil _ _)
  | finish => exact absurd hquiet.inFlight (List.cons_ne_nil _ _)
  | throw => exact absurd hquiet.inFlight (List.cons_ne_nil _ _)
  | leave _ => exact ⟨rfl, rfl, hquiet.queued⟩

end

end CmsProxy.EventLoop
