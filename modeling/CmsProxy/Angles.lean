/-
Angles that are close, up to full turns.

An angle that is computed may come out a turn away from the one that is meant, and a
little off besides. `NearMod` says both at once, for turns of any length, and its rules
follow a computation step by step: errors add up (`NearMod.trans`), and a change of
unit scales the turn and the error alike (`NearMod.mul`).

The angle at which a point is seen depends on its distance less than one might fear:
where the distance has a relative error, the angle has the same error in radians at
most (`abs_arg_sub_le`).
-/
import Mathlib

set_option autoImplicit false

namespace CmsProxy.Angles

/-- `a` is `b`, up to turns of length `T` and an error of `ε`. -/
def NearMod (T ε a b : ℝ) : Prop := ∃ n : ℤ, |a - b - n * T| ≤ ε

section

variable {T ε ε' a b c : ℝ}

theorem NearMod.of_abs (h : |a - b| ≤ ε) : NearMod T ε a b :=
  ⟨0, by rwa [Int.cast_zero, zero_mul, sub_zero]⟩

theorem NearMod.of_modEq (h : a ≡ b [PMOD T]) : NearMod T 0 a b := by
  obtain ⟨n, hn⟩ := AddCommGroup.modEq_iff_eq_add_zsmul.mp h
  refine ⟨-n, ?_⟩
  rw [hn, zsmul_eq_mul, Int.cast_neg, neg_mul, sub_neg_eq_add, sub_add_cancel_left,
    neg_add_cancel, abs_zero]

theorem NearMod.nonneg (h : NearMod T ε a b) : 0 ≤ ε := by
  obtain ⟨n, hn⟩ := h
  exact (abs_nonneg _).trans hn

theorem NearMod.mono (h : NearMod T ε a b) (hε : ε ≤ ε') : NearMod T ε' a b := by
  obtain ⟨n, hn⟩ := h
  exact ⟨n, hn.trans hε⟩

/-- Turns and errors add up. -/
theorem NearMod.trans (h : NearMod T ε a b) (h' : NearMod T ε' b c) :
    NearMod T (ε + ε') a c := by
  obtain ⟨n, hn⟩ := h
  obtain ⟨n', hn'⟩ := h'
  refine ⟨n + n', ?_⟩
  have hsum : a - c - (n + n' : ℤ) * T = a - b - n * T + (b - c - n' * T) := by
    push_cast
    ring
  rw [hsum]
  exact (abs_add_le _ _).trans (add_le_add hn hn')

/-- Another unit of angle. -/
theorem NearMod.mul (h : NearMod T ε a b) (hc : 0 ≤ c) :
    NearMod (T * c) (ε * c) (a * c) (b * c) := by
  obtain ⟨n, hn⟩ := h
  refine ⟨n, ?_⟩
  rw [← mul_assoc, ← sub_mul, ← sub_mul, abs_mul, abs_of_nonneg hc]
  exact mul_le_mul_of_nonneg_right hn hc

/-- The other way round. -/
theorem NearMod.const_sub (h : NearMod T ε a b) (c : ℝ) : NearMod T ε (c - a) (c - b) := by
  obtain ⟨n, hn⟩ := h
  refine ⟨-n, ?_⟩
  have hneg : c - a - (c - b) - (-n : ℤ) * T = -(a - b - n * T) := by
    push_cast
    ring
  rwa [hneg, abs_neg]

end

/-! ## The angle of a point -/

theorem abs_arctan_le (x : ℝ) : |Real.arctan x| ≤ |x| := by
  have key : ∀ y : ℝ, 0 ≤ y → Real.arctan y ≤ y := by
    intro y hy
    have htan := Real.le_tan (Real.arctan_nonneg.mpr hy) (Real.arctan_lt_pi_div_two y)
    rwa [Real.tan_arctan] at htan
  rcases le_total 0 x with h0 | h0
  · rw [abs_of_nonneg h0, abs_of_nonneg (Real.arctan_nonneg.mpr h0)]
    exact key x h0
  · rw [abs_of_nonpos h0, abs_of_nonpos (Real.arctan_le_zero.mpr h0), ← Real.arctan_neg]
    exact key (-x) (neg_nonneg.mpr h0)

/-- To the right of the second axis, the angle is given by the slope. -/
theorem arg_eq_arctan {p z : ℝ} (hp : 0 < p) : Complex.arg ⟨p, z⟩ = Real.arctan (z / p) := by
  have hquarter : |Complex.arg ⟨p, z⟩| < Real.pi / 2 :=
    Complex.abs_arg_lt_pi_div_two_iff.mpr (Or.inl hp)
  obtain ⟨hlo, hhi⟩ := abs_lt.mp hquarter
  rw [← Real.arctan_tan hlo hhi, Complex.tan_arg]

/-- **The angle under an error in the distance.** -/
theorem abs_arg_sub_le {p r z : ℝ} (hr : 0 < r) (hp : r / 2 ≤ p) :
    |Complex.arg ⟨p, z⟩ - Complex.arg ⟨r, z⟩| ≤ |p - r| / r := by
  have hp0 : 0 < p := by linarith
  have hden : 0 < p * r + z * z := add_pos_of_pos_of_nonneg (mul_pos hp0 hr) (mul_self_nonneg z)
  -- the difference of the angles has a tangent of its own
  have hslope : z / p * -(z / r) < 1 := by
    have hsq : 0 ≤ z / p * (z / r) := by
      rw [div_mul_div_comm]
      exact div_nonneg (mul_self_nonneg z) (mul_pos hp0 hr).le
    linarith
  have hdiff : Real.arctan (z / p) - Real.arctan (z / r) =
      Real.arctan (z * (r - p) / (p * r + z * z)) := by
    have hleft : 1 - z / p * -(z / r) = (p * r + z * z) / (p * r) := by
      field_simp
      ring
    have hright : z / p + -(z / r) = z * (r - p) / (p * r) := by
      field_simp
      ring
    rw [sub_eq_add_neg, ← Real.arctan_neg, Real.arctan_add hslope, hleft, hright,
      div_div_div_cancel_right₀ (mul_pos hp0 hr).ne']
  rw [arg_eq_arctan hp0, arg_eq_arctan hr, hdiff]
  refine (abs_arctan_le _).trans ?_
  have hfactor : |z| * r ≤ p * r + z * z := by
    have hsquare := sq_nonneg (|z| - r / 2)
    rw [← abs_mul_abs_self z]
    nlinarith
  rw [abs_div, abs_mul, abs_of_pos hden, abs_sub_comm r p, div_le_div_iff₀ hden hr]
  calc |z| * |p - r| * r = |p - r| * (|z| * r) := by ring
    _ ≤ |p - r| * (p * r + z * z) := mul_le_mul_of_nonneg_left hfactor (abs_nonneg _)

end CmsProxy.Angles
