/-
Wrapping into one period by repeated addition and subtraction.

Two loops, one that adds a period `p` while the value is negative and one that
subtracts it while the value is `p` or more. In exact arithmetic they end, and
what they leave is the representative in `[0, p)` (`wrap_eq`), which Mathlib calls
`toIcoMod`. How many rounds they take follows from how many periods the value is
away from `[0, p)`.
-/
import Mathlib.Algebra.Order.ToIntervalMod
import CmsProxy.Runs

set_option autoImplicit false

namespace CmsProxy.Turns

open Runs

variable {α : Type*} [AddCommGroup α] [LinearOrder α] [IsOrderedAddMonoid α]
variable {p : α} {below above : α → Bool}

/-- Below zero by `k` periods at most: `k` additions are enough. -/
theorem raise_finishes (hbelow : ∀ a, below a = true ↔ a < 0) (k : ℕ) {a : α}
    (h : 0 ≤ a + k • p) : ∃ r, whileLoop below (fun a => a + p) (k + 1) a = some r ∧
      0 ≤ r ∧ (r = a ∨ r < p) ∧ ∃ z : ℤ, a = r + z • p := by
  induction k generalizing a with
  | zero =>
      rw [zero_nsmul, add_zero] at h
      have hexit : below a = false := by
        rw [Bool.eq_false_iff, Ne, hbelow]
        exact not_lt.mpr h
      exact ⟨a, whileLoop_exit hexit, h, Or.inl rfl, 0, by rw [zero_zsmul, add_zero]⟩
  | succ k ih =>
      by_cases hneg : a < 0
      · obtain ⟨r, hr, hnonneg, hlt, z, hz⟩ := @ih (a + p) (by rwa [add_assoc, ← succ_nsmul'])
        refine ⟨r, (whileLoop_round ((hbelow a).mpr hneg)).trans hr, hnonneg, Or.inr ?_, z - 1, ?_⟩
        · rcases hlt with rfl | hlt
          · exact add_lt_of_neg_left p hneg
          · exact hlt
        · rw [sub_one_zsmul, ← add_assoc, ← hz, add_neg_cancel_right]
      · have hexit : below a = false := by
          rwa [Bool.eq_false_iff, Ne, hbelow]
        exact ⟨a, whileLoop_exit hexit, not_lt.mp hneg, Or.inl rfl, 0,
          by rw [zero_zsmul, add_zero]⟩

/-- Less than `k + 1` periods: `k` subtractions are enough. -/
theorem lower_finishes (habove : ∀ a, above a = true ↔ p ≤ a) (k : ℕ) {a : α} (h0 : 0 ≤ a)
    (h : a < (k + 1) • p) : ∃ r, whileLoop above (fun a => a - p) (k + 1) a = some r ∧
      0 ≤ r ∧ r < p ∧ ∃ z : ℤ, a = r + z • p := by
  induction k generalizing a with
  | zero =>
      rw [zero_add, one_nsmul] at h
      have hexit : above a = false := by
        rw [Bool.eq_false_iff, Ne, habove]
        exact not_le.mpr h
      exact ⟨a, whileLoop_exit hexit, h0, h, 0, by rw [zero_zsmul, add_zero]⟩
  | succ k ih =>
      by_cases hge : p ≤ a
      · obtain ⟨r, hr, hnonneg, hlt, z, hz⟩ := @ih (a - p) (sub_nonneg.mpr hge)
          (by rwa [sub_lt_iff_lt_add, ← succ_nsmul])
        refine ⟨r, (whileLoop_round ((habove a).mpr hge)).trans hr, hnonneg, hlt, z + 1, ?_⟩
        rw [add_zsmul, one_zsmul, ← add_assoc, ← hz, sub_add_cancel]
      · have hexit : above a = false := by
          rwa [Bool.eq_false_iff, Ne, habove]
        exact ⟨a, whileLoop_exit hexit, h0, not_le.mp hge, 0, by rw [zero_zsmul, add_zero]⟩

variable [Archimedean α]

/-- **The wrap.** From at most `k` periods below `[0, p)` or above it, both loops end
in `k` rounds, with the representative of the value in `[0, p)`. -/
theorem wrap_eq (hp : 0 < p) (hbelow : ∀ a, below a = true ↔ a < 0)
    (habove : ∀ a, above a = true ↔ p ≤ a) {k : ℕ} {a : α} (hlo : 0 ≤ a + k • p)
    (hhi : a < (k + 1) • p) {fuel : ℕ} (hfuel : k + 1 ≤ fuel) :
    (whileLoop below (fun a => a + p) fuel a).bind (whileLoop above (fun a => a - p) fuel) =
      some (toIcoMod hp 0 a) := by
  obtain ⟨b, hb, hb0, hblt, z, hz⟩ := raise_finishes hbelow k hlo
  have hbhi : b < (k + 1) • p := by
    rcases hblt with rfl | hblt
    · exact hhi
    · refine hblt.trans_le ?_
      rw [succ_nsmul]
      exact le_add_of_nonneg_left (nsmul_nonneg hp.le k)
  obtain ⟨r, hr, hr0, hrlt, z', hz'⟩ := lower_finishes habove k hb0 hbhi
  rw [whileLoop_mono hfuel hb, Option.bind_some, whileLoop_mono hfuel hr]
  congr 1
  refine ((toIcoMod_eq_iff hp).mpr ⟨⟨hr0, ?_⟩, z' + z, ?_⟩).symm
  · rwa [zero_add]
  · rw [hz, hz', add_assoc, add_zsmul]

/-- Every value is a number of periods away. -/
theorem exists_turns (hp : 0 < p) (a : α) : ∃ k : ℕ, 0 ≤ a + k • p ∧ a < (k + 1) • p := by
  obtain ⟨k, hk⟩ := Archimedean.arch |a| hp
  refine ⟨k, ?_, ?_⟩
  · rw [← neg_le_iff_add_nonneg']
    exact (neg_le_abs a).trans hk
  · refine (le_abs_self a).trans_lt (hk.trans_lt ?_)
    rw [succ_nsmul]
    exact lt_add_of_pos_right _ hp

end CmsProxy.Turns
