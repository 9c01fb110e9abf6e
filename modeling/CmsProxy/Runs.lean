/-
Iteration, in the two forms the proxy has it: a `while` loop inside a function,
and a component that takes one step per call for as long as it lives.

A loop is `whileLoop`, cut off after a number of rounds; `none` is "still
running". What a loop returns does not depend on how much it was allowed
(`whileLoop_mono`), so a result obtained under some bound is the result. An
invariant shows that a loop ends (`whileLoop_finishes`) or that it never does
(`whileLoop_never`).

A component is a step relation: from a state, an input leads to an output and a
next state. A `Run` carries the list of inputs with their outputs, oldest first. Runs
are put together and taken apart with `Run.append` and `Run.split`, and each theorem
about every run of the program is one of the three rules at the end: an invariant of
the states, an invariant tying the state to the history, or a fact about each entry
of the history by itself.
-/
import Mathlib.Tactic

set_option autoImplicit false

namespace CmsProxy.Runs

/-! ## Loops -/

section Loops

variable {α : Type*}

/-- `while (cond(a)) a = body(a);`, for fewer than `fuel` rounds. -/
def whileLoop (cond : α → Bool) (body : α → α) : ℕ → α → Option α
  | 0, _ => none
  | fuel + 1, a => if cond a then whileLoop cond body fuel (body a) else some a

variable {cond : α → Bool} {body : α → α}

/-- A loop whose guard is false ends at once. -/
theorem whileLoop_exit {fuel : ℕ} {a : α} (h : cond a = false) :
    whileLoop cond body (fuel + 1) a = some a := by
  rw [whileLoop, h]
  rfl

/-- A loop whose guard is true runs its body and goes on. -/
theorem whileLoop_round {fuel : ℕ} {a : α} (h : cond a = true) :
    whileLoop cond body (fuel + 1) a = whileLoop cond body fuel (body a) := by
  rw [whileLoop, h]
  rfl

/-- More rounds do not change a result. -/
theorem whileLoop_mono {fuel fuel' : ℕ} {a r : α} (hle : fuel ≤ fuel')
    (h : whileLoop cond body fuel a = some r) : whileLoop cond body fuel' a = some r := by
  induction fuel generalizing fuel' a with
  | zero => exact absurd h (by simp [whileLoop])
  | succ fuel ih =>
      obtain ⟨m, rfl⟩ : ∃ m, fuel' = m + 1 := ⟨fuel' - 1, by omega⟩
      cases hc : cond a with
      | false =>
          rw [whileLoop_exit hc] at h ⊢
          exact h
      | true =>
          rw [whileLoop_round hc] at h ⊢
          exact ih (by omega) h

/-- A loop with an invariant that bounds the rounds still to come ends, with the
invariant. -/
theorem whileLoop_finishes {Inv : ℕ → α → Prop}
    (hstep : ∀ n a, Inv n a → cond a = true → ∃ m, n = m + 1 ∧ Inv m (body a)) {n : ℕ} {a : α}
    (h : Inv n a) :
    ∃ m r, whileLoop cond body (n + 1) a = some r ∧ Inv m r ∧ cond r = false := by
  induction n generalizing a with
  | zero =>
      cases hc : cond a with
      | false => exact ⟨0, a, whileLoop_exit hc, h, hc⟩
      | true =>
          obtain ⟨m, hm, -⟩ := hstep 0 a h hc
          exact absurd hm (Nat.succ_ne_zero m).symm
  | succ n ih =>
      cases hc : cond a with
      | false => exact ⟨n + 1, a, whileLoop_exit hc, h, hc⟩
      | true =>
          obtain ⟨m, hm, hbody⟩ := hstep (n + 1) a h hc
          obtain rfl : n = m := Nat.succ.inj hm
          rw [whileLoop_round hc]
          exact ih hbody

/-- A loop with an invariant under which the guard is true never ends. -/
theorem whileLoop_never {Inv : α → Prop} (hstep : ∀ a, Inv a → cond a = true ∧ Inv (body a))
    (fuel : ℕ) {a : α} (h : Inv a) : whileLoop cond body fuel a = none := by
  induction fuel generalizing a with
  | zero => rfl
  | succ fuel ih =>
      obtain ⟨hc, hbody⟩ := hstep a h
      rw [whileLoop_round hc]
      exact ih hbody

end Loops

/-! ## Runs of a step relation -/

section Runs

variable {σ ι ω : Type*}

/-- The histories a step relation can produce from `s₀`, with the state each
ends in. A history lists the inputs with their outputs, oldest first. -/
inductive Run (step : σ → ι → ω → σ → Prop) (s₀ : σ) : List (ι × ω) → σ → Prop
  | nil : Run step s₀ [] s₀
  | snoc {log : List (ι × ω)} {s s' : σ} {i : ι} {o : ω} :
      Run step s₀ log s → step s i o s' → Run step s₀ (log ++ [(i, o)]) s'

variable {step : σ → ι → ω → σ → Prop} {s₀ s s' : σ} {log log' : List (ι × ω)}

/-- A run goes on where another has ended. -/
theorem Run.append (h : Run step s₀ log s) (h' : Run step s log' s') :
    Run step s₀ (log ++ log') s' := by
  induction h' with
  | nil =>
      rw [List.append_nil]
      exact h
  | snoc _ hs ih =>
      rw [← List.append_assoc]
      exact ih.snoc hs

/-- A run without a step goes nowhere. -/
theorem Run.eq_of_nil (h : Run step s₀ [] s) : s = s₀ := by
  generalize hlog : ([] : List (ι × ω)) = whole at h
  cases h with
  | nil => rfl
  | snoc _ _ => exact absurd hlog.symm (by simp)

/-- The last step of a run. -/
theorem Run.last {e : ι × ω} (h : Run step s₀ (log ++ [e]) s) :
    ∃ s₁, Run step s₀ log s₁ ∧ step s₁ e.1 e.2 s := by
  generalize hlog : log ++ [e] = whole at h
  cases h with
  | nil => exact absurd hlog (by simp)
  | snoc hrun hstep =>
      obtain ⟨rfl, hentry⟩ := List.append_inj' hlog rfl
      obtain rfl := List.singleton_inj.mp hentry
      exact ⟨_, hrun, hstep⟩

/-- A single step is a run. -/
theorem Run.single {i : ι} {o : ω} (h : step s i o s') : Run step s [(i, o)] s' :=
  Run.snoc .nil h

theorem Run.of_single {e : ι × ω} (h : Run step s₀ [e] s) : step s₀ e.1 e.2 s := by
  obtain ⟨s₁, hnil, hstep⟩ := Run.last (show Run step s₀ ([] ++ [e]) s from h)
  rwa [hnil.eq_of_nil] at hstep

/-- A run can be interrupted anywhere. -/
theorem Run.split (h : Run step s₀ (log ++ log') s) :
    ∃ s₁, Run step s₀ log s₁ ∧ Run step s₁ log' s := by
  induction log' using List.reverseRecOn generalizing s with
  | nil =>
      rw [List.append_nil] at h
      exact ⟨s, h, .nil⟩
  | append_singleton log' e ih =>
      rw [← List.append_assoc] at h
      obtain ⟨s₂, hrun, hstep⟩ := h.last
      obtain ⟨s₁, hbefore, hafter⟩ := ih hrun
      exact ⟨s₁, hbefore, hafter.snoc hstep⟩

/-- A relation between history and state that every step extends holds after
every run. -/
theorem Run.history (Inv : List (ι × ω) → σ → Prop) (h0 : Inv [] s₀)
    (hstep : ∀ log s i o s', Inv log s → step s i o s' → Inv (log ++ [(i, o)]) s')
    (h : Run step s₀ log s) : Inv log s := by
  induction h with
  | nil => exact h0
  | snoc _ hs ih => exact hstep _ _ _ _ _ ih hs

/-- An invariant of the states. -/
theorem Run.invariant (Inv : σ → Prop) (h0 : Inv s₀)
    (hstep : ∀ s i o s', Inv s → step s i o s' → Inv s') (h : Run step s₀ log s) : Inv s :=
  h.history (fun _ s => Inv s) h0 (fun _ s i o s' hi hs => hstep s i o s' hi hs)

/-- A run of a narrower step relation is a run. -/
theorem Run.mono {step' : σ → ι → ω → σ → Prop} (hstep : ∀ s i o s', step s i o s' → step' s i o s')
    (h : Run step s₀ log s) : Run step' s₀ log s := by
  induction h with
  | nil => exact .nil
  | snoc _ hs ih => exact ih.snoc (hstep _ _ _ _ hs)

/-- A fact every step establishes about its own input and output, under an
invariant of the states, holds of every entry of the history. -/
theorem Run.forall_mem (Inv : σ → Prop) (P : ι → ω → Prop) (h0 : Inv s₀)
    (hstep : ∀ s i o s', Inv s → step s i o s' → Inv s' ∧ P i o) (h : Run step s₀ log s) :
    ∀ e ∈ log, P e.1 e.2 := by
  have key : Inv s ∧ ∀ e ∈ log, P e.1 e.2 := by
    refine h.history (fun log s => Inv s ∧ ∀ e ∈ log, P e.1 e.2) ⟨h0, by simp⟩ ?_
    rintro log s i o s' ⟨hinv, hlog⟩ hs
    obtain ⟨hinv', hP⟩ := hstep s i o s' hinv hs
    refine ⟨hinv', ?_⟩
    intro e he
    rcases List.mem_append.mp he with he | he
    · exact hlog e he
    · rw [List.mem_singleton.mp he]
      exact hP
  exact key.2

end Runs

end CmsProxy.Runs
