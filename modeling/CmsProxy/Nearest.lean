/-
Rounding is to a nearest float.

`Binary32.lean` bounds the error of an operation by half a unit in the last place.
Here that is turned into the property rounding is defined by: no finite float is
closer to the exact result (`RoundsTo.nearest`).

What follows from it is why sums of floats of very different sizes lose the small
one. Floats above `2 ^ (t + 23)` are multiples of `2 ^ t`, so a sum less than half
of that away from a large float is rounded to this float (`toRat_add_absorbed`).
-/
import CmsProxy.Binary32

set_option autoImplicit false

namespace CmsProxy.Binary32

open Float.Model Float.Model.UnpackedFloat

/-! ## The grid of a size -/

/-- A float of at least this size is a multiple of the unit. -/
theorem exists_multiple {w : UnpackedFloat} {y : ℚ} (hw : Canonical w) (hy : value w = some y)
    {t : ℤ} (ht : t = -149 ∨ 2 ^ (t + 23) ≤ |y|) : ∃ n : ℤ, y = n * 2 ^ t := by
  rcases value_eq_some hy with ⟨s, rfl, rfl⟩ | ⟨s, m, e, hm, rfl, rfl⟩
  · exact ⟨0, by rw [Int.cast_zero, zero_mul]⟩
  · obtain ⟨hlt, he, -, -⟩ := hw
    have hle : t ≤ e := by
      rcases ht with rfl | hlarge
      · exact he
      · rw [abs_signed s (by positivity)] at hlarge
        have hm24 : (m : ℚ) * 2 ^ e < 2 ^ (e + 24) := by
          rw [add_comm, zpow_add₀ (by norm_num)]
          gcongr
          exact_mod_cast hlt
        have := (zpow_lt_zpow_iff_right₀ (by norm_num : (1 : ℚ) < 2)).mp (hlarge.trans_lt hm24)
        omega
    obtain ⟨k, rfl⟩ : ∃ k : ℕ, e = t + k := ⟨(e - t).toNat, by omega⟩
    refine ⟨s.apply ((m * 2 ^ k : ℕ) : ℤ), ?_⟩
    rw [cast_apply, zpow_add₀ (by norm_num), zpow_natCast]
    push_cast
    congr 1
    ring

/-- No multiple of the unit is closer than the rounded one. -/
theorem OnGrid.le_multiple {t : ℤ} {x q : ℚ} (h : OnGrid t x q) (n : ℤ) :
    |q - x| ≤ |n * 2 ^ t - x| := by
  obtain ⟨r, hr⟩ := h.multiple
  by_cases hn : n = r
  · rw [hr, hn, Int.cast_natCast]
  · -- another multiple is a whole unit away, and half a unit is left
    have hpos : (0 : ℚ) < 2 ^ t := by positivity
    have hdist : (1 : ℚ) ≤ |(n : ℚ) - r| := by
      have : (1 : ℤ) ≤ |n - r| := Int.one_le_abs (sub_ne_zero.mpr hn)
      exact_mod_cast this
    have hunit : 2 ^ t ≤ |n * 2 ^ t - q| := by
      rw [hr, ← sub_mul, abs_mul, abs_of_pos hpos]
      exact le_mul_of_one_le_left hpos.le hdist
    have htri := abs_sub_le ((n : ℚ) * 2 ^ t) x q
    have herr := h.error
    rw [abs_sub_comm x q] at htri
    linarith

/-- No float is closer than the rounded one: the smaller floats lie behind the first
number on the grid. -/
theorem OnGrid.nearest {t : ℤ} {x q : ℚ} (h : OnGrid t x q) {w : UnpackedFloat} {y : ℚ}
    (hw : Canonical w) (hy : value w = some y) : |q - x| ≤ |y - x| := by
  by_cases hgrid : t = -149 ∨ 2 ^ (t + 23) ≤ |y|
  · obtain ⟨n, rfl⟩ := exists_multiple hw hy hgrid
    exact h.le_multiple n
  · obtain ⟨hne, hsmall⟩ := not_or.mp hgrid
    have hunit := h.unit.resolve_left hne
    have hfirst := h.le_multiple (2 ^ 23)
    have hpow : ((2 ^ 23 : ℤ) : ℚ) * 2 ^ t = 2 ^ (t + 23) := by
      rw [add_comm, zpow_add₀ (by norm_num)]
      push_cast
      norm_num
    rw [hpow, abs_sub_comm, abs_sub_comm _ x, abs_of_nonneg (sub_nonneg.mpr hunit)] at hfirst
    have hy' := le_abs_self y
    have hfar := le_abs_self (x - y)
    rw [abs_sub_comm q x, abs_sub_comm y x]
    linarith

theorem signed_signed (s : Sign) (x : ℚ) : signed s (signed s x) = x := by
  cases s with
  | positive => rfl
  | negative => exact neg_neg x

theorem abs_signed_sub (s : Sign) (x y : ℚ) : |signed s x - signed s y| = |x - y| := by
  cases s with
  | positive => rfl
  | negative => rw [signed, signed, ← neg_sub', abs_neg]

/-- **Round to nearest.** No finite float is closer to the exact value. -/
theorem RoundsTo.nearest {x : ℚ} {u : UnpackedFloat} (h : RoundsTo x u) :
    ∃ q, value u = some q ∧ ∀ w y, Canonical w → value w = some y → |q - x| ≤ |y - x| := by
  obtain ⟨-, s, t, m, q, rfl, -, hval, hgrid⟩ := h
  refine ⟨signed s q, hval, fun w y hw hy => ?_⟩
  rw [abs_signed_sub, ← signed_signed s y, abs_signed_sub]
  -- the negative of a float is one
  cases s with
  | positive => exact hgrid.nearest hw hy
  | negative => exact hgrid.nearest (canonical_neg hw) (value_neg hy)

/-! ## Absorption -/

/-- What is rounded to a float less than half a unit away. -/
theorem RoundsTo.absorbed {x z : ℚ} {u w : UnpackedFloat} {t : ℤ} (h : RoundsTo z u)
    (hw : Canonical w) (hx : value w = some x) (hlarge : 2 ^ (t + 23) < |x|)
    (hsmall : 2 * |z - x| < 2 ^ t) : value u = some x := by
  obtain ⟨q, hval, hnearest⟩ := h.nearest
  have hpos : (0 : ℚ) < 2 ^ t := by positivity
  have hpow : (2 : ℚ) ^ (t + 23) = 2 ^ 23 * 2 ^ t := by
    rw [add_comm, zpow_add₀ (by norm_num)]
    norm_num
  -- the result is less than a unit away from the float
  have hclose : |q - x| < 2 ^ t := by
    have htri := abs_sub_le q z x
    have hq := hnearest w x hw hx
    rw [abs_sub_comm x z] at hq
    linarith
  obtain ⟨n, hn⟩ := exists_multiple hw hx (Or.inr hlarge.le)
  -- so it is large enough to be on the same grid
  have hlarge' : 2 ^ (t + 23) ≤ |q| := by
    have habs : |x| = |(n : ℚ)| * 2 ^ t := by rw [hn, abs_mul, abs_of_pos hpos]
    have hnext : (2 : ℚ) ^ 23 + 1 ≤ |(n : ℚ)| := by
      rw [habs, hpow] at hlarge
      have hlt : (2 : ℚ) ^ 23 < |(n : ℚ)| := lt_of_mul_lt_mul_right hlarge hpos.le
      have hint : (2 : ℤ) ^ 23 < |n| := by exact_mod_cast hlt
      exact_mod_cast hint
    have hx' : 2 ^ (t + 23) + 2 ^ t ≤ |x| := by
      rw [habs, hpow]
      calc (2 : ℚ) ^ 23 * 2 ^ t + 2 ^ t = (2 ^ 23 + 1) * 2 ^ t := by ring
        _ ≤ |(n : ℚ)| * 2 ^ t := mul_le_mul_of_nonneg_right hnext hpos.le
    have htri := abs_sub_abs_le_abs_sub x q
    rw [abs_sub_comm] at htri
    linarith
  obtain ⟨k, hk⟩ := exists_multiple h.1 hval (Or.inr hlarge')
  rw [hk, hn, ← sub_mul, abs_mul, abs_of_pos hpos] at hclose
  have hone : |(k : ℚ) - n| < 1 := lt_of_mul_lt_mul_right (by rwa [one_mul]) hpos.le
  have hzero : |k - n| < 1 := by exact_mod_cast hone
  have hkn : k = n := by
    have := abs_lt.mp hzero
    omega
  rw [hval, hk, hkn, hn]

/-- A finite float is no larger than the largest one. -/
theorem abs_le_maxFinite {w : UnpackedFloat} {x : ℚ} (hw : Canonical w) (hx : value w = some x) :
    |x| ≤ maxFinite := by
  rcases value_eq_some hx with ⟨s, rfl, rfl⟩ | ⟨s, m, e, hm, rfl, rfl⟩
  · rw [abs_zero, maxFinite]
    norm_num
  · obtain ⟨hlt, -, he, -⟩ := hw
    have hm' : (m : ℚ) ≤ 2 ^ 24 - 1 := by
      have : (m : ℚ) + 1 ≤ 2 ^ 24 := by exact_mod_cast hlt
      linarith
    have hpow : (2 : ℚ) ^ e ≤ 2 ^ (104 : ℤ) := zpow_le_zpow_right₀ (by norm_num) he
    rw [abs_signed s (by positivity), maxFinite]
    calc (m : ℚ) * 2 ^ e ≤ (2 ^ 24 - 1) * 2 ^ (104 : ℤ) := by gcongr
      _ = (2 ^ 24 - 1) * 2 ^ 104 := rfl

section

variable {a b : Float32} {x y : ℚ} {t : ℤ}

/-- Adding a small number to a large float, towards zero, changes nothing. -/
theorem toRat_add_absorbed (hx : toRat a = some x) (hy : toRat b = some y)
    (hlarge : 2 ^ (t + 23) < |x|) (hsmall : 2 * |y| < 2 ^ t) (hle : |x + y| ≤ |x|) :
    toRat (a + b) = some x := by
  have hrounds := add_rounds (canonical_unpack _) (canonical_unpack _) hx hy
    (hle.trans (abs_le_maxFinite (canonical_unpack _) hx))
  show value (Float32.Model.pack _).unpack = some x
  rw [unpack_pack hrounds.1]
  refine hrounds.absorbed (canonical_unpack _) hx hlarge ?_
  rwa [add_sub_cancel_left]

theorem toRat_sub_absorbed (hx : toRat a = some x) (hy : toRat b = some y)
    (hlarge : 2 ^ (t + 23) < |x|) (hsmall : 2 * |y| < 2 ^ t) (hle : |x - y| ≤ |x|) :
    toRat (a - b) = some x := by
  have hrounds := sub_rounds (canonical_unpack _) (canonical_unpack _) hx hy
    (hle.trans (abs_le_maxFinite (canonical_unpack _) hx))
  show value (Float32.Model.pack _).unpack = some x
  rw [unpack_pack hrounds.1]
  refine hrounds.absorbed (canonical_unpack _) hx hlarge ?_
  rwa [sub_sub_cancel_left, abs_neg]

end

end CmsProxy.Binary32
