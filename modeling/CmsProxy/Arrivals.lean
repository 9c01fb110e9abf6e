/-
What arrives at the socket.

The receiver and the process around it are one system: the callback is set while the
engine is constructed, the first receive is armed after that, and the loop on the main
thread runs the completions. So the callback is there for every completion, and each
datagram is handed on. One completion with an error is enough to end this: it arms no
receive, no other completion comes, and the loop returns. It is also the only way to
the end of `main` that is not an exception (`arrivals`).
-/
import CmsProxy.Shutdown

set_option autoImplicit false

namespace CmsProxy.Arrivals

open BigEndian Interfaces Engine EventLoop Runs Main Shutdown
open Receiver hiding Entry

/-! ## Completions -/

def completionIn (entry : Entry) : List Completion :=
  match entry.1 with
  | .completion c => [c]
  | _ => []

/-- What has come from the socket, in its order. -/
def completions (log : List Entry) : List Completion := log.flatMap completionIn

theorem completions_snoc (log : List Entry) (entry : Entry) :
    completions (log ++ [entry]) = completions log ++ completionIn entry := by
  rw [completions, List.flatMap_append, List.flatMap_singleton, completions]

/-- The packet of a completion that carries a datagram. -/
def packetOf (c : Completion) : Option RawPacket := c.asksFor.map Prod.fst

/-- None of them carries an error. -/
def allDatagrams (cs : List Completion) : Bool := cs.all (·.isDatagram)

/-! ## The invariant -/

/-- The receiver, by the place of the main thread. -/
def Armed (pc : MainPc) (rx : UdpMulticastReceiver) (cs : List Completion) : Prop :=
  match pc with
  | .constructing rest => cs = [] ∧ rx.pending = 0 ∧ (.engine ∉ rest → rx.callback_ = true)
  | .receiving => rx.callback_ = true ∧ rx.pending = if allDatagrams cs then 1 else 0
  | .resetting => allDatagrams cs = false
  | .stopping => allDatagrams cs = false
  | .leaving .orderly => allDatagrams cs = false
  | .returned .orderly => allDatagrams cs = false
  | .leaving (.thrown _) => True
  | .returned (.thrown _) => True

/-- What has arrived, and what was handed on. -/
structure Arrived {S : Type} (log : List Entry) (s : Process S) : Prop where
  received : received log = (completions log).filterMap packetOf
  datagrams : ∀ c ∈ (completions log).dropLast, c.isDatagram = true
  armed : Armed s.pc s.rx (completions log)

section

variable {F : Type} [CFloat F] {S : Type} {eng : ProxyEngine F S}

/-- A step that has nothing to do with the socket. -/
theorem Arrived.silent {log : List Entry} {s s' : Process S} {l : Label} (h : Arrived log s)
    (hl : completionIn (l, []) = []) (harmed : Armed s'.pc s'.rx (completions log)) :
    Arrived (log ++ [(l, [])]) s' := by
  have hsame : completions (log ++ [(l, [])]) = completions log := by
    rw [completions_snoc, hl, List.append_nil]
  refine ⟨?_, hsame ▸ h.datagrams, hsame ▸ harmed⟩
  rw [received_append, hsame, h.received]
  exact List.append_nil _

omit [CFloat F] in
/-- A completion: the receiver was armed, so all before have been datagrams. -/
theorem Arrived.completion {log : List Entry} {s : Process S} {c : Completion}
    {events : List Event} {rx : UdpMulticastReceiver} (h : Arrived log s) (hpc : s.pc = .receiving)
    (hcomplete : ReceiveStep eng.rt.asio s.rx c events rx) :
    Arrived (log ++ [(.completion c, events)])
      { s with rx := rx, ctx := s.ctx.post (packetsOf events) } := by
  obtain ⟨hpos, hcallback, hpending, hinvocations⟩ := complete_cases hcomplete
  have harmed := h.armed
  rw [hpc] at harmed
  obtain ⟨hset, hone⟩ := harmed
  have hall : allDatagrams (completions log) = true := by
    by_contra hsome
    rw [if_neg hsome] at hone
    omega
  rw [if_pos hall] at hone
  have hnext : completions (log ++ [(.completion c, events)]) = completions log ++ [c] :=
    completions_snoc log _
  refine ⟨?_, ?_, ?_⟩
  · rw [received_append, hnext, List.filterMap_append, h.received]
    congr 1
    show packetsOf events ++ [] = _
    rw [List.append_nil, packetsOf, hinvocations, if_pos hset, List.filterMap_cons, packetOf]
    cases c.asksFor <;> rfl
  · rw [hnext, List.dropLast_concat]
    exact List.all_eq_true.mp hall
  · show Armed s.pc rx _
    rw [hpc, hnext]
    refine ⟨hcallback.trans hset, ?_⟩
    rw [hpending, hone, allDatagrams, List.all_append, ← allDatagrams, hall, Bool.true_and,
      List.all_cons, List.all_nil, Bool.and_true]

/-- **Steps.** -/
theorem arrived_step {log : List Entry} {s s' : Process S} {l : Label} {events : List Event}
    (h : Arrived log s) (hstep : ProcessStep eng s l events s') :
    Arrived (log ++ [(l, events)]) s' := by
  have harmed := h.armed
  obtain ⟨-, hstep⟩ := hstep
  cases hstep with
  | @construct l rest hpc =>
      rw [hpc] at harmed
      obtain ⟨hnone, hpending, hcallback⟩ := harmed
      refine h.silent rfl ?_
      have hpc' : (s.construct l rest).pc = .constructing rest := by cases l <;> rfl
      rw [hpc']
      refine ⟨hnone, ?_, fun hengine => ?_⟩
      · cases l <;> exact hpending
      · -- the engine sets the callback, the other objects leave the receiver alone
        by_cases hl : l = .engine
        · subst hl
          rfl
        · have hbefore : s.rx.callback_ = true :=
            hcallback (List.not_mem_cons_of_ne_of_not_mem (Ne.symm hl) hengine)
          cases l <;> first | exact hbefore | exact absurd rfl hl
  | construct_throws _ => exact h.silent rfl trivial
  | engine_run hpc =>
      rw [hpc] at harmed
      obtain ⟨hnone, hpending, hcallback⟩ := harmed
      refine h.silent rfl ⟨hcallback List.not_mem_nil, ?_⟩
      rw [hnone]
      exact congrArg (· + 1) hpending
  | engine_run_throws _ => exact h.silent rfl trivial
  | completion hpc hcomplete => exact h.completion hpc hcomplete
  | rx_throws _ => exact h.silent rfl trivial
  | rx_returns hpc hnone =>
      rw [hpc] at harmed
      obtain ⟨-, hone⟩ := harmed
      refine h.silent rfl (Bool.eq_false_iff.mpr fun hall => ?_)
      rw [hnone, if_pos hall] at hone
      exact absurd hone Nat.zero_ne_one
  | reset hpc =>
      rw [hpc] at harmed
      exact h.silent rfl harmed
  | stop hpc =>
      rw [hpc] at harmed
      exact h.silent rfl harmed
  | @destroy exit l rest hpc _ _ =>
      refine h.silent rfl ?_
      have hsame : (s.destroy l rest).pc = s.pc ∧ (s.destroy l rest).rx = s.rx := by
        cases l <;> exact ⟨rfl, rfl⟩
      rw [hsame.1, hsame.2]
      exact harmed
  | @returns exit hpc _ =>
      rw [hpc] at harmed
      refine h.silent rfl ?_
      cases exit with
      | orderly => exact harmed
      | thrown _ => exact trivial
  | delivery _ => exact h.silent rfl harmed

/-! ## Every run -/

/-- What arrives is handed on, until an error ends it. -/
structure HandedOn (log : List Entry) (s : Process S) : Prop where
  received : received log = (completions log).filterMap packetOf
  datagrams : ∀ c ∈ (completions log).dropLast, c.isDatagram = true
  listening : s.pc = .receiving → (s.rx.pending = 1 ↔ allDatagrams (completions log) = true)
  orderly : s.pc = .returned .orderly →
    ∃ c, (completions log).getLast? = some c ∧ c.isDatagram = false

/-- **Arrivals.** In every run each datagram that arrives at the socket is handed to the
delivery thread, with its bytes and in the order of arrival. At most the last completion
carries an error, the process listens exactly as long as there has been none, and
`main` returns in order only after one. -/
theorem arrivals {st₀ : EngineState S} {log : List Entry} {s : Process S}
    (h : Run (ProcessStep eng) (initial st₀) log s) : HandedOn log s := by
  have hinitial : Arrived [] (initial st₀) :=
    ⟨rfl, fun _ hc => absurd hc List.not_mem_nil, rfl, rfl,
      fun hengine => absurd (by decide) hengine⟩
  have harrived : Arrived log s :=
    h.history Arrived hinitial fun _ _ _ _ _ hs hstep => arrived_step hs hstep
  obtain ⟨hreceived, hdatagrams, harmed⟩ := harrived
  refine ⟨hreceived, hdatagrams, fun hpc => ?_, fun hpc => ?_⟩
  · rw [hpc] at harmed
    rw [harmed.2]
    cases allDatagrams (completions log) <;> decide
  · rw [hpc] at harmed
    have hsome : allDatagrams (completions log) = false := harmed
    -- the one with the error is the last
    rcases List.eq_nil_or_concat (completions log) with hnil | ⟨before, c, hlast⟩
    · rw [hnil] at hsome
      exact absurd hsome.symm Bool.false_ne_true
    · rw [List.concat_eq_append] at hlast
      rw [hlast, List.dropLast_concat] at hdatagrams
      rw [hlast, allDatagrams, List.all_append, List.all_eq_true.mpr hdatagrams, Bool.true_and,
        List.all_cons, List.all_nil, Bool.and_true] at hsome
      exact ⟨c, by rw [hlast, List.getLast?_concat], hsome⟩

end

/-- A run to the end. -/
theorem arrivals_dropped : ∃ (log : List Entry) (s : Process (List SendResult)),
    received log = [packet] ∧ s.pc = .returned .orderly ∧ HandedOn log s := by
  obtain ⟨log, s, hrun, hpc, hreceived, -⟩ := one_dropped
  exact ⟨log, s, hreceived, hpc, arrivals hrun⟩

end CmsProxy.Arrivals
