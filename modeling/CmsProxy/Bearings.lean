/-
Two questions about the conventions of `CueingMathCpp.cpp`, in exact arithmetic.

`cartesian2target` has two modes, and both angles it returns are congruent to the
bearing of the target (relative to the heading in one of the modes). They are to be
taken from -180 to 180. The correction of the absolute azimuth assigns another
variable, and the relative mode has none, so both stay between 0 and 360: the
convention is kept for targets on the right-hand side only (`one_convention_iff`).

`polar2catesian` is to undo `cartesian2target`. It hands the degrees of an angle to
functions that take radians, and the round trip ends at the same bearing only where
the two readings of the number are the same direction (`polar_roundtrip_iff`).
-/
import CmsProxy.ExactReal

set_option autoImplicit false

namespace CmsProxy.Bearings

open Interfaces CueingMath ExactReal

/-! ## The range of the azimuths -/

/-- The azimuths of a target of bearing `b`, as both modes are to return them. -/
structure OneConvention (t : Target ℝ) (b heading : ℝ) (isTrueB : Bool) : Prop where
  azAbs : t.azAbs ≡ b [PMOD 360]
  az : t.az ≡ (if isTrueB then b - heading else b) [PMOD 360]
  az_range : -180 < t.az ∧ t.az ≤ 180
  azAbs_range : -180 < t.azAbs ∧ t.azAbs ≤ 180

section

variable {rt : Runtime ℝ} {x y z az crpX crpY crpZ heading b : ℝ}

/-- A bearing is wrapped into the right-hand side when it was there before. -/
theorem wrapped_le_iff (hlo : -90 ≤ b) (hhi : b < 270) : wrapped b ≤ 180 ↔ 0 ≤ b ∧ b ≤ 180 := by
  by_cases h0 : 0 ≤ b
  · rw [wrapped_eq_self h0 (by linarith), and_iff_right h0]
  · rw [wrapped_of_neg (by linarith) (not_le.mp h0)]
    constructor
    · intro h
      linarith
    · rintro ⟨h, -⟩
      exact absurd h h0

/-- What the wraps leave is congruent to the bearing; the absolute azimuth is never
corrected, and so decides. -/
theorem convention_of_target (hlo : -90 ≤ b) (hhi : b < 270) {isTrueB : Bool} {t : Target ℝ}
    (haz : t.az = if isTrueB then halfTurn (wrapped (wrapped b - heading)) else wrapped b)
    (hazAbs : t.azAbs = wrapped b) : OneConvention t b heading isTrueB ↔ 0 ≤ b ∧ b ≤ 180 := by
  obtain ⟨h0, -⟩ := wrapped_mem b
  rw [← wrapped_le_iff hlo hhi]
  constructor
  · intro h
    rw [← hazAbs]
    exact h.azAbs_range.2
  · intro h180
    refine ⟨hazAbs ▸ wrapped_modEq b, ?_, ?_, ?_⟩
    · rw [haz]
      cases isTrueB with
      | false => exact wrapped_modEq b
      | true =>
          exact (halfTurn_modEq _).trans ((wrapped_modEq _).trans ((wrapped_modEq b).sub_right _))
    · rw [haz]
      cases isTrueB with
      | false =>
          rw [if_neg Bool.false_ne_true]
          exact ⟨by linarith, h180⟩
      | true => exact halfTurn_mem (wrapped_mem _).1 (wrapped_mem _).2
    · rw [hazAbs]
      exact ⟨by linarith, h180⟩

/-- **One convention.** Once the wraps are given enough rounds, in either mode, both
azimuths are congruent to the bearing and between -180 and 180 if and only if the
bearing is from 0 to 180; and with heading 0 the modes return the same azimuth if and
only if it is. -/
theorem one_convention_iff (h : Atan2Degrees rt) (x y z az crpX crpY crpZ heading : ℝ) :
    ∃ n, ∀ fuel, n ≤ fuel → ∃ relative toHeading toNorth,
      cartesian2target { rt with fuel := fuel } x y z az false crpX crpY crpZ heading =
        some relative ∧
      cartesian2target { rt with fuel := fuel } x y z az true crpX crpY crpZ heading =
        some toHeading ∧
      cartesian2target { rt with fuel := fuel } x y z az true crpX crpY crpZ 0 = some toNorth ∧
      (OneConvention relative (bearing rt (y - crpY) (x - crpX)) heading false ↔
        0 ≤ bearing rt (y - crpY) (x - crpX) ∧ bearing rt (y - crpY) (x - crpX) ≤ 180) ∧
      (OneConvention toHeading (bearing rt (y - crpY) (x - crpX)) heading true ↔
        0 ≤ bearing rt (y - crpY) (x - crpX) ∧ bearing rt (y - crpY) (x - crpX) ≤ 180) ∧
      (relative.az = toNorth.az ↔
        0 ≤ bearing rt (y - crpY) (x - crpX) ∧ bearing rt (y - crpY) (x - crpX) ≤ 180) := by
  obtain ⟨b, hb⟩ : ∃ b, b = bearing rt (y - crpY) (x - crpX) := ⟨_, rfl⟩
  obtain ⟨hlo, hhi⟩ := bearing_mem h (y - crpY) (x - crpX)
  rw [← hb] at hlo hhi ⊢
  obtain ⟨n, hn⟩ := mod360_ends b
  obtain ⟨m, hm⟩ := mod360_ends (wrapped b - heading)
  obtain ⟨k, hk⟩ := mod360_ends (wrapped b - 0)
  refine ⟨max n (max m k), fun fuel hfuel => ?_⟩
  have hbearing := hn fuel (by omega)
  refine ⟨_, _, _,
    @cartesian2target_exact { rt with fuel := fuel } x y z az crpX crpY crpZ heading false b hb
      hbearing (fun htrue => absurd htrue Bool.false_ne_true),
    @cartesian2target_exact { rt with fuel := fuel } x y z az crpX crpY crpZ heading true b hb
      hbearing (fun _ => hm fuel (by omega)),
    @cartesian2target_exact { rt with fuel := fuel } x y z az crpX crpY crpZ 0 true b hb
      hbearing (fun _ => hk fuel (by omega)),
    convention_of_target hlo hhi rfl rfl, convention_of_target hlo hhi rfl rfl, ?_⟩
  -- relative to a heading of 0, only the last correction is left
  obtain ⟨h0, h360⟩ := wrapped_mem b
  show wrapped b = halfTurn (wrapped (wrapped b - 0)) ↔ _
  rw [sub_zero, wrapped_eq_self h0 h360, ← wrapped_le_iff hlo hhi, halfTurn]
  split_ifs with h180
  · exact iff_of_false (by linarith) (not_le.mpr h180)
  · exact iff_of_true rfl (not_lt.mp h180)

end

/-- Of a target to the right. -/
theorem one_convention_iff_right : ∃ n, ∀ fuel, n ≤ fuel → ∃ t,
    cartesian2target { exactRuntime with fuel := fuel } 1 0 0 0 false 0 0 0 0 = some t ∧
      OneConvention t 90 0 false := by
  obtain ⟨n, hn⟩ := one_convention_iff (atan2Degrees_of_arg exactMath.atan2) 1 0 0 0 0 0 0 0
  have hb : bearing exactRuntime (0 - 0) (1 - 0) = 90 := by
    rw [bearing, sub_zero, sub_zero, (atan2Degrees_of_arg exactMath.atan2).zero 1 zero_le_one,
      sub_zero]
  refine ⟨n, fun fuel hfuel => ?_⟩
  obtain ⟨t, -, -, ht, -, -, hconvention, -, -⟩ := hn fuel hfuel
  rw [hb] at hconvention
  exact ⟨t, ht, hconvention.mpr ⟨by norm_num, by norm_num⟩⟩

/-- A target to the left has an absolute azimuth of 270. -/
theorem left_not_converted : ∃ t,
    cartesian2target exactRuntime (-1) 0 0 0 true 0 0 0 0 = some t ∧ t.azAbs = 270 ∧
      ¬ OneConvention t (-90) 0 true := by
  have hb : -90 = bearing exactRuntime (0 - 0) (-1 - 0) := by
    have harg : exactRuntime.atan2 0 (-1) = Real.pi := by
      show Complex.arg ⟨-1, 0⟩ = Real.pi
      rw [show (⟨-1, 0⟩ : ℂ) = -1 by apply Complex.ext <;> simp, Complex.arg_neg_one]
    rw [bearing, sub_zero, sub_zero, atan2deg, rad2deg_eq, harg,
      mul_div_cancel_left₀ _ Real.pi_ne_zero]
    norm_num
  have hwrapped : wrapped (-90) = 270 := by
    rw [wrapped_of_neg (by norm_num) (by norm_num)]
    norm_num
  have hbearing : mod360 exactRuntime.fuel (-90 : ℝ) = some (wrapped (-90)) :=
    @mod360_exact 1 2 (-90) (by norm_num) (by norm_num) le_rfl
  have hheading : mod360 exactRuntime.fuel (wrapped (-90) - 0) =
      some (wrapped (wrapped (-90) - 0)) := by
    rw [hwrapped]
    exact @mod360_exact 1 2 (270 - 0) (by norm_num) (by norm_num) le_rfl
  refine ⟨_, cartesian2target_exact hb hbearing (fun _ => hheading), hwrapped, ?_⟩
  rw [convention_of_target (by norm_num) (by norm_num) rfl rfl]
  norm_num

/-! ## From a bearing to a point and back -/

section

variable {rt : Runtime ℝ} {trig : Trigonometry ℝ}

/-- The point is the one at the angle `90 - bearing`, read as radians. Turns of 2π
more or less make no difference. -/
theorem polar2catesian_exact (h : ExactMath rt trig) (bearing range heading : ℝ) :
    polar2catesian rt trig bearing range false heading = some {
      x := range * Real.cos (90 - bearing)
      y := range * Real.sin (90 - bearing)
      z := 0 } := by
  obtain ⟨t, ht⟩ : ∃ t, t = 90 - bearing := ⟨_, rfl⟩
  have hcos : trig.cos (if t < 0 then 2 * Real.pi + t
      else if 2 * Real.pi ≤ t then t - 2 * Real.pi else t) = Real.cos t := by
    rw [h.cos]
    split_ifs
    · rw [add_comm, Real.cos_add_two_pi]
    · exact Real.cos_sub_two_pi t
    · rfl
  have hsin : trig.sin (if t < 0 then 2 * Real.pi + t
      else if 2 * Real.pi ≤ t then t - 2 * Real.pi else t) = Real.sin t := by
    rw [h.sin]
    split_ifs
    · rw [add_comm, Real.sin_add_two_pi]
    · exact Real.sin_sub_two_pi t
    · rfl
  unfold polar2catesian
  simp only [Bool.false_eq_true, if_false, Option.bind_eq_bind, whole_eq, Nat.cast_ofNat,
    Nat.cast_zero, kPi_eq]
  rw [← ht]
  exact congrArg some (congrArg₂ (fun c s => Point.mk (range * c) (range * s) 0) hcos hsin)

/-- The degrees of a direction given in radians, up to full turns. -/
theorem atan2deg_of_angle (h : ExactMath rt trig) {range : ℝ} (hrange : 0 < range) (t : ℝ) :
    ∃ k : ℤ, atan2deg rt (range * Real.sin t) (range * Real.cos t) =
      t * 180 / Real.pi - k • (360 : ℝ) := by
  have hpoint : (⟨range * Real.cos t, range * Real.sin t⟩ : ℂ) =
      range * (Complex.cos t + Complex.sin t * Complex.I) := by
    rw [← Complex.ofReal_cos, ← Complex.ofReal_sin]
    apply Complex.ext
    · rw [Complex.re_ofReal_mul, Complex.add_re, Complex.ofReal_re, Complex.re_ofReal_mul,
        Complex.I_re, mul_zero, add_zero]
    · rw [Complex.im_ofReal_mul, Complex.add_im, Complex.ofReal_im, Complex.im_ofReal_mul,
        Complex.I_im, mul_one, zero_add]
  refine ⟨toIocDiv Real.two_pi_pos (-Real.pi) t, ?_⟩
  rw [atan2deg, h.atan2, hpoint, Complex.arg_mul_cos_add_sin_mul_I_eq_toIocMod hrange, rad2deg_eq,
    ← self_sub_toIocDiv_zsmul Real.two_pi_pos, zsmul_eq_mul, zsmul_eq_mul]
  have hpi := Real.pi_ne_zero
  field_simp
  ring

/-- The bearing of a point built from the bearing `b`. -/
theorem wrapped_bearing_iff (h : ExactMath rt trig) {b r : ℝ} (hb0 : 0 ≤ b) (hb : b < 360)
    (hr : 0 < r) : wrapped (bearing rt (r * Real.sin (90 - b)) (r * Real.cos (90 - b))) = b ↔
      ∃ m : ℤ, (90 - b) * (180 - Real.pi) = 360 * Real.pi * m := by
  obtain ⟨k, hk⟩ := atan2deg_of_angle h hr (90 - b)
  have hpi := Real.pi_pos
  have hangle : ∀ z : ℤ, ((90 - b) * (180 - Real.pi) = 360 * Real.pi * z) ↔
      (90 - b) * 180 / Real.pi = 90 - b + 360 * z := by
    intro z
    rw [div_eq_iff hpi.ne']
    constructor
    · intro hz
      linear_combination hz
    · intro hz
      linear_combination hz
  rw [wrapped, toIcoMod_eq_iff turn_pos, and_iff_right ⟨hb0, by rwa [zero_add]⟩, bearing, hk]
  constructor
  · rintro ⟨z, hz⟩
    refine ⟨k - z, (hangle _).mpr ?_⟩
    rw [zsmul_eq_mul, zsmul_eq_mul] at hz
    push_cast
    linear_combination -hz
  · rintro ⟨m, hm⟩
    refine ⟨k - m, ?_⟩
    rw [zsmul_eq_mul, zsmul_eq_mul, (hangle m).mp hm]
    push_cast
    ring

/-- The target at a point that was built from a bearing. -/
theorem target_of_polar (h : ExactMath rt trig) (hfuel : 2 ≤ rt.fuel) (b r az heading : ℝ) :
    ∃ t, cartesian2target rt (r * Real.cos (90 - b)) (r * Real.sin (90 - b)) 0 az false 0 0 0
        heading = some t ∧
      t.range = Real.sqrt (r ^ 2) ∧ t.el = atan2deg rt 0 (Real.sqrt (r ^ 2)) ∧
      t.az = wrapped (bearing rt (r * Real.sin (90 - b)) (r * Real.cos (90 - b))) := by
  have hatan := atan2Degrees_of_arg h.atan2
  have hsq : r * Real.cos (90 - b) * (r * Real.cos (90 - b)) +
      r * Real.sin (90 - b) * (r * Real.sin (90 - b)) = r ^ 2 := by
    calc r * Real.cos (90 - b) * (r * Real.cos (90 - b)) +
          r * Real.sin (90 - b) * (r * Real.sin (90 - b))
        = r ^ 2 * (Real.sin (90 - b) ^ 2 + Real.cos (90 - b) ^ 2) := by ring
      _ = r ^ 2 := by rw [Real.sin_sq_add_cos_sq, mul_one]
  refine ⟨_, cartesian2target_exact rfl (mod360_bearing hatan _ _ hfuel)
    (fun htrue => absurd htrue Bool.false_ne_true), ?_⟩
  simp only [sub_zero, Bool.false_eq_true, if_false]
  rw [hsq, mul_zero, add_zero, h.sqrt]
  exact ⟨rfl, rfl, trivial⟩

/-- **The round trip**, away from the true-bearing mode: the range and the elevation
come back, and the bearing does if and only if the number `90 - b` is the same
direction in radians as in degrees. -/
theorem polar_roundtrip_iff (h : ExactMath rt trig) (hfuel : 2 ≤ rt.fuel) {b r : ℝ} (hb0 : 0 ≤ b)
    (hb : b < 360) (hr : 0 < r) (az heading heading' : ℝ) :
    ∃ p t, polar2catesian rt trig b r false heading = some p ∧
      cartesian2target rt p.x p.y p.z az false 0 0 0 heading' = some t ∧
      (t.range = r ∧ t.el = 0 ∧ t.az = b ↔
        ∃ m : ℤ, (90 - b) * (180 - Real.pi) = 360 * Real.pi * m) := by
  obtain ⟨t, ht, hrange, hel, haz⟩ := target_of_polar h hfuel b r az heading'
  rw [Real.sqrt_sq hr.le] at hrange hel
  refine ⟨_, t, polar2catesian_exact h b r heading, ht, ?_⟩
  rw [hrange, hel, haz, and_iff_right rfl,
    and_iff_right ((atan2Degrees_of_arg h.atan2).zero r hr.le)]
  exact wrapped_bearing_iff h hb0 hb hr

/-- Of a target to the east. -/
theorem polar_roundtrip_iff_east : ∃ p t,
    polar2catesian exactRuntime exactTrigonometry 90 1 false 0 = some p ∧
      cartesian2target exactRuntime p.x p.y p.z 0 false 0 0 0 0 = some t ∧
      t.range = 1 ∧ t.el = 0 ∧ t.az = 90 := by
  obtain ⟨p, t, hp, ht, hround⟩ := polar_roundtrip_iff exactMath (by exact le_rfl) (b := 90)
    (r := 1) (by norm_num) (by norm_num) one_pos 0 0 0
  exact ⟨p, t, hp, ht, hround.mpr ⟨0, by norm_num⟩⟩

/-- **A bearing that is a rational number** comes back from the east only. -/
theorem rational_bearing {q : ℚ} (hq : q ≠ 90) :
    ¬ ∃ m : ℤ, (90 - (q : ℝ)) * (180 - Real.pi) = 360 * Real.pi * m := by
  rintro ⟨m, hm⟩
  have hprod : Real.pi * (((360 * m + 90 - q : ℚ)) : ℝ) = (((90 - q) * 180 : ℚ) : ℝ) := by
    push_cast
    linear_combination -hm
  have hne : (90 - q) * 180 ≠ 0 := mul_ne_zero (sub_ne_zero.mpr hq.symm) (by norm_num)
  have hfactor : (360 * m + 90 - q : ℚ) ≠ 0 := by
    intro hzero
    rw [hzero, Rat.cast_zero, mul_zero] at hprod
    exact hne (by exact_mod_cast hprod.symm)
  apply irrational_pi
  refine ⟨(90 - q) * 180 / (360 * m + 90 - q), ?_⟩
  rw [Rat.cast_div, div_eq_iff (by exact_mod_cast hfactor), hprod]

/-- North is not a bearing that comes back. -/
theorem north_not_returned : ∃ p t,
    polar2catesian exactRuntime exactTrigonometry 0 1 false 0 = some p ∧
      cartesian2target exactRuntime p.x p.y p.z 0 false 0 0 0 0 = some t ∧ t.az ≠ 0 := by
  obtain ⟨t, ht, -, -, haz⟩ := target_of_polar exactMath (by exact le_rfl) 0 1 0 0
  refine ⟨_, t, polar2catesian_exact exactMath 0 1 0, ht, fun hnorth => ?_⟩
  rw [hnorth] at haz
  apply rational_bearing (show (0 : ℚ) ≠ 90 by norm_num)
  rw [Rat.cast_zero]
  exact (wrapped_bearing_iff exactMath le_rfl turn_pos one_pos).mp haz.symm

end

end CmsProxy.Bearings
