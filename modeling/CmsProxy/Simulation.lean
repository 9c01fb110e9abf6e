/-
Runs of one step relation against runs of another, and runs that come to an end:
the rules of `Runs.lean`, continued.

A system made of several parts is usually compared with a simpler one that does
the same in larger steps. `Run.simulates` is the rule for that: where every step
of the system is matched by some steps of the other, possibly none, every run is.
The relation to keep sees both histories as well as both states, since what is to
be compared is mostly what the two have done, not what they are.

`Run.lockstep` compares two runs with inputs that are not the same but are not to
make a difference.

`Run.length_le` and `Run.reaches` are about a system left to itself. A measure
that every step decreases bounds the length of a run, and where a state that is
not a goal always has a step, every run can be continued to a goal.
-/
import CmsProxy.Runs

set_option autoImplicit false

namespace CmsProxy.Runs

section

variable {σ ι ω : Type*} {step : σ → ι → ω → σ → Prop} {s₀ s : σ} {log : List (ι × ω)}

/-! ## Simulation -/

section

variable {σ' ι' ω' : Type*} {step' : σ' → ι' → ω' → σ' → Prop} {t₀ : σ'}

/-- **Simulation.** Where every step is matched by a run of the other system, so
is every run. -/
theorem Run.simulates (R : List (ι × ω) → σ → List (ι' × ω') → σ' → Prop) (h0 : R [] s₀ [] t₀)
    (hstep : ∀ log s i o s' log' t, R log s log' t → step s i o s' →
      ∃ more t', Run step' t more t' ∧ R (log ++ [(i, o)]) s' (log' ++ more) t')
    (h : Run step s₀ log s) : ∃ log' t, Run step' t₀ log' t ∧ R log s log' t := by
  induction h with
  | nil => exact ⟨[], t₀, .nil, h0⟩
  | snoc _ hs ih =>
      obtain ⟨log', t, hrun, hR⟩ := ih
      obtain ⟨more, t', hmore, hR'⟩ := hstep _ _ _ _ _ _ _ hR hs
      exact ⟨log' ++ more, t', hrun.append hmore, hR'⟩

end

/-! ## Two runs side by side -/

section

variable {σ' ι' κ : Type*} {step' : σ' → ι' → ω → σ' → Prop} {t₀ t : σ'} {log' : List (ι' × ω)}

/-- **Indifference.** Where inputs with the same key have the same output in related
states, and lead to related states, two runs whose inputs have the same keys have the
same outputs. -/
theorem Run.lockstep (key : ι → κ) (key' : ι' → κ) (R : σ → σ' → Prop) (h0 : R s₀ t₀)
    (hstep : ∀ s i o s' t i' o' t', R s t → key' i' = key i → step s i o s' →
      step' t i' o' t' → o' = o ∧ R s' t')
    (h : Run step s₀ log s) (h' : Run step' t₀ log' t)
    (hkeys : log'.map (fun e => key' e.1) = log.map fun e => key e.1) :
    log'.map Prod.snd = log.map Prod.snd ∧ R s t := by
  induction h generalizing log' t with
  | nil =>
      cases h' with
      | nil => exact ⟨rfl, h0⟩
      | snoc _ _ => exact absurd (List.map_eq_nil_iff.mp hkeys) (by simp)
  | snoc _ hs ih =>
      cases h' with
      | nil => exact absurd (List.map_eq_nil_iff.mp hkeys.symm) (by simp)
      | snoc hrun hs' =>
          rw [List.map_append, List.map_append] at hkeys
          obtain ⟨hbefore, hlast⟩ := List.append_inj' hkeys rfl
          obtain ⟨houtputs, hR⟩ := ih hrun hbefore
          obtain ⟨rfl, hR'⟩ := hstep _ _ _ _ _ _ _ _ hR (List.singleton_inj.mp hlast) hs hs'
          exact ⟨by rw [List.map_append, List.map_append, houtputs]; rfl, hR'⟩

end

/-! ## Runs that come to an end -/

/-- What every step decreases bounds the length of a run. -/
theorem Run.length_le (Inv : σ → Prop) (measure : σ → ℕ)
    (hstep : ∀ s i o s', Inv s → step s i o s' → Inv s' ∧ measure s' < measure s) (h0 : Inv s₀)
    (h : Run step s₀ log s) : Inv s ∧ log.length + measure s ≤ measure s₀ := by
  apply h.history (fun log s => Inv s ∧ log.length + measure s ≤ measure s₀)
  · exact ⟨h0, by rw [List.length_nil, Nat.zero_add]⟩
  · rintro log s i o s' ⟨hinv, hle⟩ hs
    obtain ⟨hinv', hlt⟩ := hstep s i o s' hinv hs
    refine ⟨hinv', ?_⟩
    rw [List.length_append, List.length_singleton]
    omega

/-- **Progress.** Where every state that is not a goal has a step, and every step
decreases a measure, a goal can be reached. -/
theorem Run.reaches (Inv Goal : σ → Prop) (measure : σ → ℕ)
    (hstep : ∀ s i o s', Inv s → step s i o s' → Inv s' ∧ measure s' < measure s)
    (hprogress : ∀ s, Inv s → ¬ Goal s → ∃ i o s', step s i o s') (h0 : Inv s₀) :
    ∃ log s, Run step s₀ log s ∧ Inv s ∧ Goal s := by
  induction hmeasure : measure s₀ using Nat.strongRecOn generalizing s₀ with
  | ind n ih =>
      by_cases hgoal : Goal s₀
      · exact ⟨[], s₀, .nil, h0, hgoal⟩
      · obtain ⟨i, o, s₁, hs⟩ := hprogress s₀ h0 hgoal
        obtain ⟨hinv, hlt⟩ := hstep s₀ i o s₁ h0 hs
        obtain ⟨log, s, hrun, hinv', hgoal'⟩ := ih (measure s₁) (hmeasure ▸ hlt) hinv rfl
        exact ⟨_, s, (Run.single hs).append hrun, hinv', hgoal'⟩

end

end CmsProxy.Runs
