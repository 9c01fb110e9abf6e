/-
The angle computations in exact arithmetic.

The program is written over any arithmetic (`CFloat`), and here it is the real
numbers: sums, products and quotients are exact, a literal is its value, and the
bits of a finite `float` are its value. The one literal that is meant for a number
it cannot write out is that of `kPi`, and it is π.

In this arithmetic `mod360` is wrapping into `[0, 360)` and ends for every angle
(`mod360_exact`, `mod360_ends`).
-/
import CmsProxy.Binary32
import CmsProxy.CueingMath
import CmsProxy.Turns

set_option autoImplicit false

namespace CmsProxy.ExactReal

open Interfaces CueingMath Runs

/-- Exact real arithmetic. Bits that are no finite number have no value; they are
given 0. -/
noncomputable instance instCFloatReal : CFloat ℝ where
  decLt := inferInstance
  decLe := inferInstance
  literal m e := if m = 314159265358979323846 ∧ e = 20 then Real.pi else m / 10 ^ e
  ofBits b := (((Binary32.toRat (Float32.ofBits b)).getD 0 : ℚ) : ℝ)
  truncate x := if 0 ≤ x then ⌊x⌋ else ⌈x⌉

theorem whole_eq (n : ℕ) : whole ℝ n = n := by
  show (if n = 314159265358979323846 ∧ 0 = 20 then Real.pi else (n : ℝ) / 10 ^ 0) = n
  rw [if_neg (by omega), pow_zero, div_one]

theorem whole_zero : whole ℝ 0 = 0 := by
  rw [whole_eq, Nat.cast_zero]

theorem kPi_eq : kPi ℝ = Real.pi := by
  show (if (314159265358979323846 : ℕ) = 314159265358979323846 ∧ (20 : ℕ) = 20 then Real.pi
    else (314159265358979323846 : ℕ) / 10 ^ 20) = Real.pi
  rw [if_pos ⟨rfl, rfl⟩]

/-- Degrees. -/
theorem rad2deg_eq (a : ℝ) : rad2deg a = a * 180 / Real.pi := by
  show a * whole ℝ 180 / kPi ℝ = a * 180 / Real.pi
  rw [whole_eq, kPi_eq, Nat.cast_ofNat]

/-! ## The wrap -/

theorem turn_pos : (0 : ℝ) < 360 := by norm_num

/-- **The wrap is exact**, and takes as many rounds as there are turns between the
angle and `[0, 360)`. -/
theorem mod360_exact {k fuel : ℕ} {a : ℝ} (hlo : -(360 * k) ≤ a) (hhi : a < 360 * (k + 1))
    (hfuel : k + 1 ≤ fuel) : mod360 fuel a = some (toIcoMod turn_pos 0 a) := by
  have hbelow : ∀ a : ℝ, decide (a < whole ℝ 0) = true ↔ a < 0 := by
    intro a
    rw [decide_eq_true_iff, whole_zero]
  have habove : ∀ a : ℝ, decide (whole ℝ 360 ≤ a) = true ↔ 360 ≤ a := by
    intro a
    rw [decide_eq_true_iff, whole_eq, Nat.cast_ofNat]
  rw [mod360, raiseLoop]
  unfold lowerLoop
  have h360 : whole ℝ 360 = 360 := by rw [whole_eq, Nat.cast_ofNat]
  rw [h360] at habove ⊢
  refine Turns.wrap_eq turn_pos hbelow habove ?_ ?_ hfuel
  · rw [nsmul_eq_mul]
    linarith
  · rw [nsmul_eq_mul]
    push_cast
    linarith

/-- The wrap ends for every angle, however far away. -/
theorem mod360_ends (a : ℝ) :
    ∃ n, ∀ fuel, n ≤ fuel → mod360 fuel a = some (toIcoMod turn_pos 0 a) := by
  obtain ⟨k, hlo, hhi⟩ := Turns.exists_turns turn_pos a
  rw [nsmul_eq_mul] at hlo hhi
  push_cast at hhi
  exact ⟨k + 1, fun fuel hfuel => mod360_exact (by linarith) (by linarith) hfuel⟩

/-! ## The angles of a target -/

section

variable {rt : Runtime ℝ}

/-- `atan2` in degrees. -/
noncomputable def atan2deg (rt : Runtime ℝ) (y x : ℝ) : ℝ := rad2deg (rt.atan2 y x)

/-- What is taken of `atan2`: its degrees are in `(-180, 180]`, and it is 0 on the
positive first axis and at the origin. -/
structure Atan2Degrees (rt : Runtime ℝ) : Prop where
  lt : ∀ y x, -180 < atan2deg rt y x
  le : ∀ y x, atan2deg rt y x ≤ 180
  zero : ∀ x, 0 ≤ x → atan2deg rt 0 x = 0

/-- The nautical azimuth of a direction. -/
noncomputable def bearing (rt : Runtime ℝ) (y x : ℝ) : ℝ := 90 - atan2deg rt y x

theorem bearing_mem (h : Atan2Degrees rt) (y x : ℝ) :
    -90 ≤ bearing rt y x ∧ bearing rt y x < 270 := by
  have hlt := h.lt y x
  have hle := h.le y x
  unfold bearing
  constructor <;> linarith

/-- A bearing is less than a turn away from the range it is wrapped into. -/
theorem mod360_bearing (h : Atan2Degrees rt) (y x : ℝ) {fuel : ℕ} (hfuel : 2 ≤ fuel) :
    mod360 fuel (bearing rt y x) = some (toIcoMod turn_pos 0 (bearing rt y x)) := by
  obtain ⟨hlo, hhi⟩ := bearing_mem h y x
  apply mod360_exact (k := 1)
  · push_cast
    linarith
  · push_cast
    linarith
  · exact hfuel

/-- An azimuth from 0 to 360, taken from -180 to 180. -/
noncomputable def halfTurn (a : ℝ) : ℝ := if 180 < a then a - 360 else a

theorem halfTurn_mem {a : ℝ} (h0 : 0 ≤ a) (h360 : a < 360) :
    -180 < halfTurn a ∧ halfTurn a ≤ 180 := by
  unfold halfTurn
  split_ifs with h180
  · constructor <;> linarith
  · constructor <;> linarith

theorem halfTurn_modEq (a : ℝ) : halfTurn a ≡ a [PMOD 360] := by
  unfold halfTurn
  split_ifs
  · exact AddCommGroup.modEq_iff_eq_add_zsmul.mpr ⟨1, by rw [one_zsmul, sub_add_cancel]⟩
  · exact AddCommGroup.modEq_rfl

/-- The angle in `[0, 360)` that is congruent to another. -/
noncomputable abbrev wrapped (a : ℝ) : ℝ := toIcoMod turn_pos 0 a

/-- **The target**, where the wraps end. The azimuth is relative to north, or to the
heading when `isTrueB`. -/
theorem cartesian2target_exact {x y z az crpX crpY crpZ heading : ℝ} {isTrueB : Bool} {b : ℝ}
    (hb : b = bearing rt (y - crpY) (x - crpX)) (hbearing : mod360 rt.fuel b = some (wrapped b))
    (hheading : isTrueB = true →
      mod360 rt.fuel (wrapped b - heading) = some (wrapped (wrapped b - heading))) :
    cartesian2target rt x y z az isTrueB crpX crpY crpZ heading = some {
      az := if isTrueB then halfTurn (wrapped (wrapped b - heading)) else wrapped b
      el := atan2deg rt (z - crpZ) (rt.sqrt ((x - crpX) * (x - crpX) + (y - crpY) * (y - crpY)))
      range := rt.sqrt ((x - crpX) * (x - crpX) + (y - crpY) * (y - crpY) +
        (z - crpZ) * (z - crpZ))
      azAbs := wrapped b } := by
  have hnautical : 90 - rad2deg (rt.atan2 (y - crpY) (x - crpX)) = b := hb.symm
  obtain ⟨h0, h360⟩ : 0 ≤ wrapped b ∧ wrapped b < 360 := toIcoMod_mem_Ico' turn_pos b
  -- neither angle is ever below -180
  have hnot : ∀ {a : ℝ}, 0 ≤ a → ¬ a < 0 - 180 := by
    intro a ha
    linarith
  unfold cartesian2target
  simp only [whole_eq, Nat.cast_ofNat, Nat.cast_zero, hnautical, hbearing, Option.bind_eq_bind,
    Option.bind_some]
  have hazAbs : (if 180 < wrapped b then (wrapped b - 360, wrapped b)
      else if wrapped b < 0 - 180 then (az, wrapped b + 360) else (az, wrapped b)).2 =
        wrapped b := by
    rw [if_neg (hnot h0)]
    split_ifs <;> rfl
  cases isTrueB with
  | false =>
      simp only [Bool.false_eq_true, if_false]
      exact congrArg (fun a => some (Target.mk _ _ _ a)) hazAbs
  | true =>
      obtain ⟨hs0, -⟩ : 0 ≤ wrapped (wrapped b - heading) ∧ wrapped (wrapped b - heading) < 360 :=
        toIcoMod_mem_Ico' turn_pos (wrapped b - heading)
      simp only [if_true, hheading rfl, Option.bind_some, if_neg (hnot hs0)]
      exact congrArg (fun a => some (Target.mk _ _ _ a)) hazAbs

theorem wrapped_mem (a : ℝ) : 0 ≤ wrapped a ∧ wrapped a < 360 := toIcoMod_mem_Ico' turn_pos a

theorem wrapped_modEq (a : ℝ) : wrapped a ≡ a [PMOD 360] :=
  AddCommGroup.modEq_iff_eq_add_zsmul.mpr
    ⟨toIcoDiv turn_pos 0 a, (toIcoMod_add_toIcoDiv_zsmul turn_pos 0 a).symm⟩

/-- `a` is the one angle in `[0, 360)` congruent to `b`. -/
def TheAngle (b a : ℝ) : Prop := ∀ c, (0 ≤ c ∧ c < 360 ∧ c ≡ b [PMOD 360]) ↔ c = a

theorem theAngle_wrapped (b : ℝ) : TheAngle b (wrapped b) := by
  intro c
  constructor
  · rintro ⟨h0, h360, hmod⟩
    obtain ⟨z, hz⟩ := AddCommGroup.modEq_iff_eq_add_zsmul.mp hmod
    refine ((toIcoMod_eq_iff turn_pos).mpr ⟨⟨h0, by rwa [zero_add]⟩, z, hz⟩).symm
  · rintro rfl
    exact ⟨(wrapped_mem b).1, (wrapped_mem b).2, wrapped_modEq b⟩

theorem wrapped_eq_self {a : ℝ} (h0 : 0 ≤ a) (h360 : a < 360) : wrapped a = a :=
  (toIcoMod_eq_self turn_pos).mpr ⟨h0, by rwa [zero_add]⟩

/-- From less than a turn below zero, one turn is added. -/
theorem wrapped_of_neg {a : ℝ} (hlo : -360 ≤ a) (hneg : a < 0) : wrapped a = a + 360 := by
  refine (toIcoMod_eq_iff turn_pos).mpr ⟨⟨by linarith, by linarith⟩, -1, ?_⟩
  rw [neg_one_zsmul, add_neg_cancel_right]

end

/-! ## The functions of the mathematics library, exactly -/

/-- `sqrt`, `atan2`, `cos` and `sin` are those of the real numbers. -/
structure ExactMath (rt : Runtime ℝ) (trig : Trigonometry ℝ) : Prop where
  sqrt : ∀ a, rt.sqrt a = Real.sqrt a
  atan2 : ∀ y x, rt.atan2 y x = Complex.arg ⟨x, y⟩
  cos : ∀ a, trig.cos a = Real.cos a
  sin : ∀ a, trig.sin a = Real.sin a

/-- Rounding to the nearest integer, halfway cases away from zero. -/
noncomputable def roundAway (a : ℝ) : ℤ := if 0 ≤ a then ⌊a + 1 / 2⌋ else ⌈a - 1 / 2⌉

/-- The real functions. -/
noncomputable def exactRuntime : Runtime ℝ where
  sqrt := Real.sqrt
  atan2 y x := Complex.arg ⟨x, y⟩
  lround := roundAway
  dump _ := none
  parse _ := none
  floatBack := some
  asio := .posix
  fuel := 2

noncomputable def exactTrigonometry : Trigonometry ℝ where
  cos := Real.cos
  sin := Real.sin

theorem exactMath : ExactMath exactRuntime exactTrigonometry :=
  ⟨fun _ => rfl, fun _ _ => rfl, fun _ => rfl, fun _ => rfl⟩

/-- The real `atan2` has the range that is assumed. -/
theorem atan2Degrees_of_arg {rt : Runtime ℝ} (h : ∀ y x, rt.atan2 y x = Complex.arg ⟨x, y⟩) :
    Atan2Degrees rt := by
  have hdeg : ∀ y x, atan2deg rt y x = Complex.arg ⟨x, y⟩ * (180 / Real.pi) := by
    intro y x
    rw [atan2deg, rad2deg_eq, h, mul_div_assoc]
  have hpi : Real.pi * (180 / Real.pi) = 180 := mul_div_cancel₀ 180 Real.pi_ne_zero
  have hpos : 0 < 180 / Real.pi := div_pos (by norm_num) Real.pi_pos
  constructor
  · intro y x
    have hlt := mul_lt_mul_of_pos_right (Complex.neg_pi_lt_arg ⟨x, y⟩) hpos
    rw [neg_mul, hpi] at hlt
    rwa [hdeg]
  · intro y x
    have hle := mul_le_mul_of_nonneg_right (Complex.arg_le_pi ⟨x, y⟩) hpos.le
    rwa [hpi, ← hdeg] at hle
  · intro x hx
    rw [hdeg, show (⟨x, 0⟩ : ℂ) = (x : ℂ) from rfl, Complex.arg_ofReal_of_nonneg hx, zero_mul]

end CmsProxy.ExactReal
