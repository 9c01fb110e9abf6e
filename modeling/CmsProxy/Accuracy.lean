/-
How far the machine's commands are from the exact ones.

`Directions.lean` says where the commands of a cueing order point when the angles are
computed with real numbers. The program computes them with `float`, through a length,
two calls of `atan2`, a change of unit and up to three wraps, and every step rounds.

Here the two runs of the same text are compared on the same datagram. Under an `atan2`
that is off by `δ` radians at most, each angle that is sent is within
`1/5000 + 58 * δ` degrees of the exact one, up to a full turn, and half a degree more
for the whole degrees of `DELTA` (`machine_points_at_target`). What has to be excluded
are targets whose squared distance overflows or vanishes. Where it overflows, the
elevation that is sent is 0 for every height (`far_target_sent_level`).
-/
import CmsProxy.Angles
import CmsProxy.Directions
import CmsProxy.MissingNumbers
import CmsProxy.RoundOff

set_option autoImplicit false

namespace CmsProxy.Accuracy

open BigEndian Binary32 Angles Interfaces JsonValue CueingMath CueingBounds Converter Orders Cueing
open Directions ExactReal
open MissingNumbers (LroundLaw nearestInteger)
open Reference (withText jsonLaws_withText position)

/-! ## Degrees -/

section

variable {a : Float32} {q : ℚ}

/-- `kPi` is not π, but close. -/
theorem kPi_near : |Real.pi - 13176795 / 4194304| ≤ 1 / 1000000 := by
  have hlo := Real.pi_gt_d6
  have hhi := Real.pi_lt_d6
  rw [abs_le]
  constructor <;> linarith

/-- The three errors on the way to degrees: the product is rounded, the quotient is
rounded, and the divisor is not quite π. -/
theorem degrees_error {k r p d : ℝ} (hk : k = 13176795 / 4194304) (hr : |r| ≤ k)
    (hp : |p - r * 180| ≤ 2 ^ (10 - 25 : ℤ)) (hd : |d - p / k| ≤ 2 ^ (8 - 25 : ℤ)) :
    |d - r * 180 / Real.pi| ≤ 1 / 10000 := by
  have hk3 : 3 < k := by norm_num [hk]
  have hpi := Real.pi_gt_three
  have hproduct : |p / k - r * 180 / k| ≤ 2 ^ (10 - 25 : ℤ) / 3 := by
    rw [← sub_div, abs_div, abs_of_pos (by linarith : 0 < k)]
    exact div_le_div₀ (by positivity) hp (by norm_num) hk3.le
  have hdivisor : |r * 180 / k - r * 180 / Real.pi| ≤ 180 * (1 / 1000000 / 3) := by
    have hfactor : r * 180 / k - r * 180 / Real.pi = r / k * 180 * ((Real.pi - k) / Real.pi) := by
      field_simp
    have hone : |r / k| ≤ 1 := by
      rwa [abs_div, abs_of_pos (by linarith : 0 < k), div_le_one (by linarith)]
    have hnear := kPi_near
    rw [← hk] at hnear
    have hquot : |(Real.pi - k) / Real.pi| ≤ 1 / 1000000 / 3 := by
      rw [abs_div, abs_of_pos Real.pi_pos]
      exact div_le_div₀ (by norm_num) hnear (by norm_num) hpi.le
    rw [hfactor, abs_mul, abs_mul, abs_of_pos (by norm_num : (0 : ℝ) < 180)]
    exact mul_le_mul (by linarith) hquot (abs_nonneg _) (by norm_num)
  have htri := abs_sub_le d (p / k) (r * 180 / Real.pi)
  have htri' := abs_sub_le (p / k) (r * 180 / k) (r * 180 / Real.pi)
  norm_num at hd hproduct hdivisor ⊢
  linarith

/-- **Degrees** on the machine. -/
theorem rad2deg_near (hq : toRat a = some q) (habs : |q| ≤ 13176795 / 4194304) :
    ∃ d, toRat (rad2deg a) = some d ∧ -181 ≤ d ∧ d ≤ 181 ∧
      |(d : ℝ) - q * 180 / Real.pi| ≤ 1 / 10000 := by
  obtain ⟨hlo, hhi⟩ := abs_le.mp habs
  obtain ⟨p, hp, hnear⟩ := toRat_mul 10 hq toRat_180 (by norm_num) (by norm_num)
    (by rw [abs_lt]; norm_num; constructor <;> linarith)
  obtain ⟨hplo, hphi⟩ := hnear.between (-566) 566 (by norm_num; linarith) (by norm_num; linarith)
  obtain ⟨d, hd, hnear'⟩ := toRat_div 8 hp toRat_kPi (by norm_num) (by norm_num) (by norm_num)
    (by rw [abs_lt]; constructor <;> norm_num <;> linarith)
  obtain ⟨d', hd', hbounds⟩ := rad2deg_number hq hlo hhi
  obtain rfl := Option.some.inj (hd.symm.trans hd')
  have hmul := hnear.cast
  have hdiv := hnear'.cast
  have habs' := (Rat.cast_le (K := ℝ)).mpr habs
  push_cast at hmul hdiv habs'
  exact ⟨d, hd, hbounds.1, hbounds.2, degrees_error rfl habs' hmul hdiv⟩

/-! ## The wrap -/

variable {fuel : ℕ}

/-- One round of the first loop at most, and what it changes. -/
theorem raiseLoop_near (hq : toRat a = some q) (hlo : -360 ≤ q) (hhi : q ≤ 699) :
    ∃ r p, raiseLoop 2 a = some r ∧ toRat r = some p ∧ 0 ≤ p ∧ p ≤ 699 ∧
      NearMod 360 (2 ^ (-16 : ℤ)) p q := by
  by_cases h0 : 0 ≤ q
  · refine ⟨a, q, raiseLoop_exit hq h0, hq, h0, hhi, NearMod.of_abs ?_⟩
    rw [sub_self, abs_zero]
    positivity
  · have h0' : q < 0 := not_le.mp h0
    obtain ⟨p, hp, hnear⟩ := toRat_add 9 hq toRat_360 (by norm_num) (by norm_num)
      (by rw [abs_of_nonneg (by linarith)]; norm_num; linarith)
    have hnonneg : 0 ≤ p := hnear.nonneg (by linarith)
    have hle := (hnear.between (-1) 361 (by norm_num; linarith) (by norm_num; linarith)).2
    have herr := hnear.cast
    push_cast at herr
    refine ⟨_, p, (raiseLoop_round hq h0').trans (raiseLoop_exit hp hnonneg), hp, hnonneg,
      by linarith, 1, ?_⟩
    rwa [Int.cast_one, one_mul, sub_sub]

/-- The same for the second loop. -/
theorem lowerLoop_near (hq : toRat a = some q) (hlo : 0 ≤ q) (hhi : q ≤ 699) :
    ∃ r p, lowerLoop 2 a = some r ∧ toRat r = some p ∧ 0 ≤ p ∧ p < 360 ∧
      NearMod 360 (2 ^ (-16 : ℤ)) p q := by
  by_cases h360 : q < 360
  · refine ⟨a, q, lowerLoop_exit hq h360, hq, hlo, h360, NearMod.of_abs ?_⟩
    rw [sub_self, abs_zero]
    positivity
  · have h360' : 360 ≤ q := not_lt.mp h360
    obtain ⟨p, hp, hnear⟩ := toRat_sub 9 hq toRat_360 (by norm_num) (by norm_num)
      (by rw [abs_of_nonneg (by linarith)]; norm_num; linarith)
    have hnonneg : 0 ≤ p := hnear.nonneg (by linarith)
    have hle := (hnear.between (-1) 341 (by norm_num; linarith) (by norm_num; linarith)).2
    have herr := hnear.cast
    push_cast at herr
    refine ⟨_, p, (lowerLoop_round hq h360').trans (lowerLoop_exit hp (by linarith)), hp, hnonneg,
      by linarith, -1, ?_⟩
    rwa [Int.cast_neg, Int.cast_one, neg_one_mul, sub_neg_eq_add, sub_add]

/-- **The wrap** changes a number by full turns and two roundings. -/
theorem mod360_near (hfuel : 2 ≤ fuel) (hq : toRat a = some q) (hlo : -360 ≤ q) (hhi : q ≤ 699) :
    ∃ r p, mod360 fuel a = some r ∧ toRat r = some p ∧ 0 ≤ p ∧ p < 360 ∧
      NearMod 360 (2 ^ (-15 : ℤ)) p q := by
  obtain ⟨b, q', hb, hq', hlo', hhi', hraise⟩ := raiseLoop_near hq hlo hhi
  obtain ⟨r, p, hr, hp, h0, h360, hlower⟩ := lowerLoop_near hq' hlo' hhi'
  refine ⟨r, p, ?_, hp, h0, h360, (hlower.trans hraise).mono (by norm_num)⟩
  rw [mod360, show raiseLoop fuel a = some b from Runs.whileLoop_mono hfuel hb, Option.bind_some]
  exact Runs.whileLoop_mono hfuel hr

end

/-! ## The angles of a target -/

section

variable {rt : Runtime Float32} {δ ε θ : ℝ} {q : ℚ}

/-- `atan2` is off by `δ` radians at most, except at the origin, where there is no
angle. -/
structure Atan2Accurate (rt : Runtime Float32) (δ : ℝ) : Prop where
  near : ∀ (y x : Float32) (v u : ℚ), toRat y = some v → toRat x = some u → v ≠ 0 ∨ u ≠ 0 →
    ∃ q, toRat (rt.atan2 y x) = some q ∧ NearMod (2 * Real.pi) δ q (Complex.arg ⟨u, v⟩)

/-- The target is neither so near nor so far that its squared distance is lost. -/
structure Moderate (x y : ℚ) : Prop where
  away : 2 ^ (-50 : ℤ) ≤ |x| ∨ 2 ^ (-50 : ℤ) ≤ |y|
  x : |x| ≤ 2 ^ (62 : ℤ)
  y : |y| ≤ 2 ^ (62 : ℤ)

theorem Moderate.ne_zero {x y : ℚ} (h : Moderate x y) : y ≠ 0 ∨ x ≠ 0 := by
  have hpos : (0 : ℚ) < 2 ^ (-50 : ℤ) := by positivity
  rcases h.away with hx | hy
  · exact Or.inr (abs_pos.mp (hpos.trans_le hx))
  · exact Or.inl (abs_pos.mp (hpos.trans_le hy))

/-- Radians that are close to an angle are close to it in degrees. -/
theorem degrees_near {c : Float32} (hq : toRat c = some q) (habs : |q| ≤ 13176795 / 4194304)
    (hnear : NearMod (2 * Real.pi) ε q θ) : ∃ d, toRat (rad2deg c) = some d ∧ -181 ≤ d ∧
      d ≤ 181 ∧ NearMod 360 (1 / 10000 + 58 * ε) d (θ * 180 / Real.pi) := by
  obtain ⟨d, hd, hlo, hhi, herr⟩ := rad2deg_near hq habs
  refine ⟨d, hd, hlo, hhi, (NearMod.of_abs herr).trans ?_⟩
  have hunit : 180 / Real.pi ≤ 58 := by
    rw [div_le_iff₀ Real.pi_pos]
    linarith [Real.pi_gt_d2]
  have hscaled := hnear.mul (div_nonneg (by norm_num) Real.pi_pos.le : 0 ≤ 180 / Real.pi)
  have hturn : 2 * Real.pi * (180 / Real.pi) = 360 := by
    field_simp
    norm_num
  rw [hturn, ← mul_div_assoc (q : ℝ), ← mul_div_assoc θ] at hscaled
  refine hscaled.mono ?_
  rw [mul_comm]
  exact mul_le_mul_of_nonneg_right hunit hnear.nonneg

/-- What `atan2` returns is a number in its range. -/
theorem abs_atan2_le (hatan : Atan2Range rt) {y x : Float32} (hq : toRat (rt.atan2 y x) = some q) :
    |q| ≤ 13176795 / 4194304 := by
  rcases atan2_within hatan y x with hnan | ⟨q', hq', hlo, hhi⟩
  · exact absurd hnan (not_isNaN_of_toRat hq)
  · obtain rfl := Option.some.inj (hq.symm.trans hq')
    exact abs_le.mpr ⟨hlo, hhi⟩

/-- The azimuth: half a turn's worth of degrees, taken from a quarter turn and wrapped. -/
theorem azimuth_near (hatan : Atan2Range rt) (haccurate : Atan2Accurate rt δ) (hfuel : 2 ≤ rt.fuel)
    {y x : Float32} {v u : ℚ} (hy : toRat y = some v) (hx : toRat x = some u)
    (hne : v ≠ 0 ∨ u ≠ 0) : ∃ r p, mod360 rt.fuel (whole Float32 90 - rad2deg (rt.atan2 y x)) =
      some r ∧ toRat r = some p ∧ 0 ≤ p ∧ p < 360 ∧
      NearMod 360 (3 / 20000 + 58 * δ) p (bearing exactRuntime v u) := by
  obtain ⟨q, hq, hnear⟩ := haccurate.near y x v u hy hx hne
  obtain ⟨d, hd, hdlo, hdhi, hdnear⟩ := degrees_near hq (abs_atan2_le hatan hq) hnear
  obtain ⟨n, hn, hnear'⟩ := toRat_sub 9 toRat_90 hd (by norm_num) (by norm_num)
    (by rw [abs_lt]; norm_num; constructor <;> linarith)
  obtain ⟨hnlo, hnhi⟩ := hnear'.between (-360) 699 (by norm_num; linarith) (by norm_num; linarith)
  obtain ⟨r, p, hr, hp, h0, h360, hwrap⟩ := mod360_near hfuel hn hnlo hnhi
  have herr := hnear'.cast
  push_cast at herr
  have hexact : bearing exactRuntime v u = 90 - Complex.arg ⟨u, v⟩ * 180 / Real.pi := by
    rw [bearing, atan2deg, rad2deg_eq]
    rfl
  refine ⟨r, p, hr, hp, h0, h360, ?_⟩
  rw [hexact]
  have hsum := (hwrap.trans (NearMod.of_abs herr)).trans (hdnear.const_sub 90)
  exact hsum.mono (by norm_num; linarith)

/-- The elevation over the computed distance. -/
theorem elevation_near (hatan : Atan2Range rt) (haccurate : Atan2Accurate rt δ)
    (hsqrt : ∀ a, rt.sqrt a = a.sqrt) {x y z : Float32} {u v w : ℚ} (hx : toRat x = some u)
    (hy : toRat y = some v) (hz : toRat z = some w) (h : Moderate u v) :
    ∃ d, toRat (rad2deg (rt.atan2 z (rt.sqrt (x * x + y * y)))) = some d ∧ -181 ≤ d ∧ d ≤ 181 ∧
      NearMod 360 (3 / 20000 + 58 * δ + 1 / 80000) d
        (atan2deg exactRuntime w (exactRuntime.sqrt ((u : ℝ) * u + (v : ℝ) * v))) := by
  obtain ⟨s, hs, hpos, herr⟩ := toRat_length hx hy h.away h.x h.y
  obtain ⟨l, hl⟩ : ∃ l, l = √((u : ℝ) * u + (v : ℝ) * v) := ⟨_, rfl⟩
  rw [← hl] at hpos herr
  have hhalf : l / 2 ≤ s := by
    have hlo := (abs_le.mp herr).1
    norm_num at hlo
    linarith
  have hs0 : s ≠ 0 := by
    rintro rfl
    rw [Rat.cast_zero] at hhalf
    linarith
  rw [← hsqrt] at hs
  obtain ⟨q, hq, hnear⟩ := haccurate.near z _ w s hz hs (Or.inr hs0)
  have hangle : |Complex.arg ⟨s, w⟩ - Complex.arg ⟨l, w⟩| ≤ 2 ^ (-20 : ℤ) := by
    refine (abs_arg_sub_le hpos hhalf).trans ?_
    rwa [div_le_iff₀ hpos]
  obtain ⟨d, hd, hlo, hhi, hdnear⟩ := degrees_near hq (abs_atan2_le hatan hq)
    (hnear.trans (NearMod.of_abs hangle))
  have hexact : atan2deg exactRuntime w (exactRuntime.sqrt ((u : ℝ) * u + (v : ℝ) * v)) =
      Complex.arg ⟨l, w⟩ * 180 / Real.pi := by
    rw [atan2deg, rad2deg_eq, hl]
    rfl
  refine ⟨d, hd, hlo, hhi, ?_⟩
  rw [hexact]
  exact hdnear.mono (by norm_num; linarith)

variable {data : Bytes} {snapshot : SystemStateSnapshot} {x y z : ℚ}

/-- The machine reads the same coordinates. -/
theorem coordinates_read (h : Coordinates data x y z) : ∃ a b c,
    coordinatesAt Float32 data (u16At data 36) = (a, b, c, true) ∧ toRat a = some x ∧
      toRat b = some y ∧ toRat c = some z := by
  cases h with
  | spatial kind size hx hy hz =>
      refine ⟨_, _, _, ?_, hx, hy, hz⟩
      rw [coordinatesAt, if_pos kind, if_pos size]
      rfl
  | flat kind size hx hy =>
      refine ⟨_, _, _, ?_, hx, hy, toRat_0⟩
      rw [coordinatesAt, if_neg (not_spatial kind), if_pos kind, if_pos size]
      rfl

/-- The float is an angle in `[0, 360)`, at most `ε` degrees from `θ`. -/
structure PointsAt (ε : ℝ) (a : Float32) (θ : ℝ) : Prop where
  number : ∃ q, toRat a = some q ∧ 0 ≤ q ∧ q < 360 ∧ NearMod 360 ε q θ

/-- **The angles of a cueing order**, on the machine: the wrapped azimuth is close to the
exact one, and the elevation is taken over the computed distance. -/
theorem handedAngles_near (hatan : Atan2Range rt) (haccurate : Atan2Accurate rt δ)
    (hfuel : 2 ≤ rt.fuel) (hc : Coordinates data x y z) (hne : y ≠ 0 ∨ x ≠ 0) :
    ∃ a b c azimuth azimuth360, toRat a = some x ∧ toRat b = some y ∧ toRat c = some z ∧
      handedAngles rt data = .ok (azimuth, rad2deg (rt.atan2 c (rt.sqrt (a * a + b * b)))) ∧
      normalize_0_360 rt azimuth = some azimuth360 ∧
      PointsAt (1 / 5000 + 58 * δ) azimuth360 (wrapped (bearing exactRuntime y x)) := by
  obtain ⟨a, b, c, hread, hx, hy, hz⟩ := coordinates_read hc
  have hx' := toRat_sub_zero hx toRat_0
  have hy' := toRat_sub_zero hy toRat_0
  have hz' := toRat_sub_zero hz toRat_0
  obtain ⟨azimuth, p, haz, hp, h0, h360, hnear⟩ :=
    azimuth_near hatan haccurate hfuel hy' hx' hne
  obtain ⟨azimuth360, p', haz', hp', hp0, hp360, hnear'⟩ :=
    mod360_near hfuel hp (by linarith) (by linarith)
  refine ⟨_, _, _, azimuth, azimuth360, hx', hy', hz', ?_, haz', p', hp', hp0, hp360, ?_⟩
  · rw [handedAngles, hread]
    simp only [cueing_angles, if_pos, cartesian2target, haz, Option.bind_eq_bind, Option.bind_some]
    rfl
  · have hwrapped := NearMod.of_modEq (wrapped_modEq (bearing exactRuntime y x)).symm
    exact ((hnear'.trans hnear).trans hwrapped).mono (by norm_num; linarith)

end

/-! ## A runtime with an accurate `atan2` -/

/-- The float nearest to a multiple of `2 ^ -22` that is nearest to the angle. -/
noncomputable def nearestFloat (r : ℝ) : Float32 :=
  .ofModel (.pack (Float.Model.UnpackedFloat.normalize Float.Model.Format.binary32
    (round (r * (2 ^ 22 : ℕ))) (-22) .positive))

/-- What lies between `-kPi` and `kPi` is rounded to a float between them. -/
theorem abs_le_kPi_of_rounds {x : ℚ} {u : Float.Model.UnpackedFloat} (hu : RoundsTo x u)
    (hx : |x| ≤ 13176795 / 4194304) {q : ℚ} (hq : value u = some q) :
    |q| ≤ 13176795 / 4194304 := by
  obtain ⟨q', hq', hnearest⟩ := hu.nearest
  obtain rfl := Option.some.inj (hq.symm.trans hq')
  obtain ⟨hlo, hhi⟩ := abs_le.mp hx
  have hupper := hnearest _ _ (canonical_unpack _) toRat_kPi
  have hlower := hnearest _ _ (canonical_unpack _) toRat_neg_kPi
  rw [abs_of_nonneg (sub_nonneg.mpr hhi)] at hupper
  rw [abs_of_nonpos (by linarith : -(13176795 / 4194304) - x ≤ 0)] at hlower
  exact abs_le.mpr ⟨by linarith [(abs_le.mp hlower).1], by linarith [(abs_le.mp hupper).2]⟩

/-- The multiple of `2 ^ -22` nearest to an angle. -/
theorem round_angle {r : ℝ} (hr : |r| ≤ Real.pi) {n : ℤ} (hn : n = round (r * (2 ^ 22 : ℕ))) :
    |n| ≤ 13176795 ∧ |(n : ℝ) * 2 ^ (-22 : ℤ) - r| ≤ 2 ^ (-23 : ℤ) := by
  have hround := abs_sub_round (r * (2 ^ 22 : ℕ))
  rw [← hn] at hround
  push_cast at hround
  obtain ⟨hrlo, hrhi⟩ := abs_le.mp hr
  obtain ⟨hlo, hhi⟩ := abs_le.mp hround
  have hpi := Real.pi_lt_d20
  have hnhi : n < 13176796 := by
    have : (n : ℝ) < 13176796 := by linarith
    exact_mod_cast this
  have hnlo : -13176796 < n := by
    have : (-13176796 : ℝ) < n := by linarith
    exact_mod_cast this
  refine ⟨abs_le.mpr ⟨by omega, by omega⟩, ?_⟩
  rw [abs_le]
  norm_num at hlo hhi ⊢
  constructor <;> linarith

theorem nearestFloat_spec {r : ℝ} (hr : |r| ≤ Real.pi) : ∃ q, toRat (nearestFloat r) = some q ∧
    |q| ≤ 13176795 / 4194304 ∧ |(q : ℝ) - r| ≤ 2 ^ (-21 : ℤ) := by
  obtain ⟨n, hn⟩ : ∃ n, n = round (r * (2 ^ 22 : ℕ)) := ⟨_, rfl⟩
  obtain ⟨hint, hdist⟩ := round_angle hr hn
  have habs : |(n : ℚ) * 2 ^ (-22 : ℤ)| ≤ 13176795 / 4194304 := by
    have hcast : |(n : ℚ)| ≤ 13176795 := by exact_mod_cast hint
    rw [abs_mul, abs_of_pos (by positivity : (0 : ℚ) < 2 ^ (-22 : ℤ))]
    norm_num
    linarith
  have hrounds := normalize_rounds .positive (habs.trans (by norm_num [maxFinite]))
  obtain ⟨q, hval, hoff⟩ := hrounds.roundedOff
  have hq : toRat (nearestFloat r) = some q := by
    rw [nearestFloat, ← hn, toRat]
    show value (Float32.Model.pack _).unpack = some q
    rw [unpack_pack hrounds.1]
    exact hval
  refine ⟨q, hq, abs_le_kPi_of_rounds hrounds habs hval, ?_⟩
  -- the multiple of the unit is rounded in its turn
  have herr : |q - n * 2 ^ (-22 : ℤ)| ≤ 2 ^ (-22 : ℤ) := by
    unfold RoundedOff at hoff
    norm_num at hoff habs ⊢
    linarith
  have herr' := (Rat.cast_le (K := ℝ)).mpr herr
  simp only [Rat.cast_abs, Rat.cast_sub, Rat.cast_mul, Rat.cast_intCast, Rat.cast_zpow,
    Rat.cast_ofNat] at herr'
  have htri := abs_sub_le (q : ℝ) (n * 2 ^ (-22 : ℤ)) r
  norm_num at herr' hdist htri ⊢
  linarith

/-- `atan2` is the nearest float to the angle of a point, 0 infinitely far to the right,
and NaN elsewhere. -/
noncomputable def nearestAtan2 (y x : Float32) : Float32 :=
  match toRat y, toRat x with
  | some v, some u => nearestFloat (Complex.arg ⟨u, v⟩)
  | some _, none =>
      match x.toModel.unpack with
      | .infinity .positive => Float32.ofBits 0
      | _ => Float32.ofBits 0x7FC00000
  | none, _ => Float32.ofBits 0x7FC00000

noncomputable def nearest : Runtime Float32 := withText MissingNumbers.millionths {
  sqrt := Float32.sqrt
  atan2 := nearestAtan2
  lround := MissingNumbers.lroundWith 0
  dump := fun _ => none
  parse := fun _ => none
  floatBack := some
  asio := .posix
  fuel := 2 }

theorem nearest_atan2Range : Atan2Range nearest := by
  intro y x
  show IsNaN (nearestAtan2 y x) ∨ _
  rw [show nearest.atan2 y x = nearestAtan2 y x from rfl, nearestAtan2]
  split
  · next v u _ _ =>
      obtain ⟨q, hq, habs, -⟩ := nearestFloat_spec (Complex.abs_arg_le_pi ⟨u, v⟩)
      obtain ⟨hlo, hhi⟩ := abs_le.mp habs
      exact Or.inr ⟨(le_iff toRat_neg_kPi hq).mpr hlo, (le_iff hq toRat_kPi).mpr hhi⟩
  · split
    · exact Or.inr (by decide)
    · exact Or.inl rfl
  · exact Or.inl rfl

theorem nearest_accurate : Atan2Accurate nearest (2 ^ (-21 : ℤ)) := by
  constructor
  intro y x v u hy hx _
  obtain ⟨q, hq, -, herr⟩ := nearestFloat_spec (Complex.abs_arg_le_pi ⟨u, v⟩)
  refine ⟨q, ?_, NearMod.of_abs herr⟩
  rw [show nearest.atan2 y x = nearestAtan2 y x from rfl, nearestAtan2, hy, hx]
  exact hq

/-! ## The commands -/

section

variable {rt : Runtime Float32} {δ ε θ : ℝ} {data : Bytes} {snapshot : SystemStateSnapshot}
  {x y z q : ℚ}

/-- A wrapped angle in whole degrees, cut to 16 bits. -/
theorem toNat_nearestInteger (h0 : 0 ≤ q) (h360 : q < 360) :
    (UInt16.ofInt (nearestInteger q)).toNat ≤ 360 ∧
      |((UInt16.ofInt (nearestInteger q)).toNat : ℝ) - q| ≤ 1 / 2 := by
  have hround : nearestInteger q = ⌊q + 1 / 2⌋ := by
    rw [nearestInteger, if_pos h0]
  have hlo : 0 ≤ ⌊q + 1 / 2⌋ := Int.floor_nonneg.mpr (by linarith)
  have hhi : ⌊q + 1 / 2⌋ < 361 := by
    rw [Int.floor_lt]
    push_cast
    linarith
  have hn : ((UInt16.ofInt (nearestInteger q)).toNat : ℤ) = ⌊q + 1 / 2⌋ := by
    rw [hround, UInt16.ofInt, UInt16.toNat_ofNat']
    omega
  refine ⟨by omega, ?_⟩
  have herr : |(⌊q + 1 / 2⌋ : ℚ) - q| ≤ 1 / 2 := by
    have hle := Int.floor_le (q + 1 / 2)
    have hlt := Int.lt_floor_add_one (q + 1 / 2)
    rw [abs_le]
    constructor <;> linarith
  rw [← hn] at herr
  have herr' := (Rat.cast_le (K := ℝ)).mpr herr
  push_cast at herr'
  exact herr'

theorem PointsAt.rounded {lround : Float32 → ℤ} (hlround : LroundLaw lround) {a : Float32}
    (h : PointsAt ε a θ) : (UInt16.ofInt (lround a)).toNat ≤ 360 ∧
      NearMod 360 (1 / 2 + ε) (UInt16.ofInt (lround a)).toNat θ := by
  obtain ⟨q, hq, h0, h360, hnear⟩ := h
  have hlarge : |q| < 2 ^ 63 := by
    rw [abs_of_nonneg h0]
    norm_num
    linarith
  obtain ⟨hle, herr⟩ := toNat_nearestInteger h0 h360
  rw [hlround a q hq hlarge]
  exact ⟨hle, (NearMod.of_abs herr).trans hnear⟩

/-- The command of angles that are known. -/
theorem command_of_angles (hjson : rt.JsonLaws) (hk : messageKind data = some .cueing_order)
    (hc : Coordinates data x y z) {azimuth elevation azimuth360 elevation360 : Float32}
    (hangles : handedAngles rt data = .ok (azimuth, elevation))
    (haz : normalize_0_360 rt azimuth = some azimuth360)
    (hel : normalize_0_360 rt elevation = some elevation360) :
    ∃ j, Emits rt data snapshot j ∧
      (u16At data 22 = 1 → Move j (str "ABS") azimuth360 elevation360) ∧
      (u16At data 22 ≠ 1 → Delta j (UInt16.ofInt (rt.lround azimuth360)).toNat
        (UInt16.ofInt (rt.lround elevation360)).toNat) := by
  have hsize : 38 ≤ data.length := by
    cases hc with
    | spatial _ size => omega
    | flat _ size => omega
  have hpresent : hasCoordinates data = true := by
    obtain ⟨a, b, c, hread, -⟩ := coordinates_read hc
    rw [← @coordinatesAt_present Float32 _ data, hread]
  by_cases hmove : u16At data 22 = 1
  · obtain ⟨command, hcommand, hMove⟩ := move_command haz hel (hasCoordinates data)
      (cueingMeta data)
    rw [← hmove] at hcommand
    rw [hpresent, if_pos rfl] at hMove
    exact ⟨_, cueing_emits hjson hk hsize hangles hcommand, fun _ => hMove,
      fun hdelta => absurd hmove hdelta⟩
  · obtain ⟨command, hcommand, hDelta⟩ := delta_command hmove haz hel (hasCoordinates data)
      (cueingMeta data)
    exact ⟨_, cueing_emits hjson hk hsize hangles hcommand, fun hyes => absurd hyes hmove,
      fun _ => hDelta⟩

/-- The angles of exact arithmetic, which the commands are compared with. -/
theorem exactAngles (hc : Coordinates data x y z) : handedAngles exactRuntime data =
    .ok (wrapped (bearing exactRuntime y x),
      atan2deg exactRuntime z (exactRuntime.sqrt ((x : ℝ) * x + (y : ℝ) * y))) :=
  handedAngles_of_coordinates (atan2Degrees_of_arg fun _ _ => rfl)
    (show 2 ≤ exactRuntime.fuel from le_rfl) hc

/-- **The machine's commands point where the exact ones do.** A cueing order whose
coordinates are numbers, for a target neither so near nor so far that its squared
distance is lost, becomes a command whose angles are those of exact arithmetic, up to
full turns: those of `MOVE` are in `[0, 360)` and a 5000th of a degree off at most,
those of `DELTA` are at most 360 and half a degree more off, and to both comes what
`atan2` itself is off. -/
theorem machine_points_at_target (hjson : rt.JsonLaws) (hatan : Atan2Range rt)
    (haccurate : Atan2Accurate rt δ) (hsqrt : ∀ a, rt.sqrt a = a.sqrt)
    (hlround : LroundLaw rt.lround) (hfuel : 2 ≤ rt.fuel)
    (hk : messageKind data = some .cueing_order) (hc : Coordinates data x y z)
    (h : Moderate x y) : ∃ j az el, Emits rt data snapshot j ∧
      handedAngles exactRuntime data = .ok (az, el) ∧
      (u16At data 22 = 1 → ∃ moveAz moveEl, Move j (str "ABS") moveAz moveEl ∧
        PointsAt (1 / 5000 + 58 * δ) moveAz az ∧ PointsAt (1 / 5000 + 58 * δ) moveEl el) ∧
      (u16At data 22 ≠ 1 → ∃ deltaAz deltaEl, Delta j deltaAz deltaEl ∧
        deltaAz ≤ 360 ∧ deltaEl ≤ 360 ∧
        NearMod 360 (1 / 2 + (1 / 5000 + 58 * δ)) deltaAz az ∧
        NearMod 360 (1 / 2 + (1 / 5000 + 58 * δ)) deltaEl el) := by
  obtain ⟨a, b, c, azimuth, azimuth360, hx, hy, hz, hangles, haz, hazNear⟩ :=
    handedAngles_near hatan haccurate hfuel hc h.ne_zero
  obtain ⟨d, hd, hlo, hhi, hdNear⟩ := elevation_near hatan haccurate hsqrt hx hy hz h
  obtain ⟨elevation360, d', hel, hd', hd0, hd360, hdNear'⟩ :=
    mod360_near hfuel hd (by linarith) (by linarith)
  have helNear : PointsAt (1 / 5000 + 58 * δ) elevation360
      (atan2deg exactRuntime z (exactRuntime.sqrt ((x : ℝ) * x + (y : ℝ) * y))) :=
    ⟨d', hd', hd0, hd360, (hdNear'.trans hdNear).mono (by norm_num; linarith)⟩
  obtain ⟨j, hj, hMove, hDelta⟩ :=
    @command_of_angles rt data snapshot x y z hjson hk hc _ _ _ _ hangles haz hel
  refine ⟨j, _, _, hj, exactAngles hc, fun hmove => ⟨_, _, hMove hmove, hazNear, helNear⟩,
    fun hdelta => ?_⟩
  obtain ⟨hazLe, hazNear'⟩ := hazNear.rounded hlround
  obtain ⟨helLe, helNear'⟩ := helNear.rounded hlround
  exact ⟨_, _, hDelta hdelta, hazLe, helLe, hazNear', helNear'⟩

end

/-- Of a target to the east, one metre away. -/
theorem machine_points_at_target_east : ∃ j az el, Emits nearest (east 1) {} j ∧
    Move j (str "ABS") az el ∧ PointsAt (1 / 4000) az 90 ∧ PointsAt (1 / 4000) el 0 := by
  obtain ⟨j, az, el, hj, hexact, hmove, -⟩ := @machine_points_at_target nearest (2 ^ (-21 : ℤ))
    (east 1) {} 1 0 0 (jsonLaws_withText _ _) nearest_atan2Range nearest_accurate
    (fun _ => rfl) (MissingNumbers.lroundWith_law 0) (by exact le_rfl) (by decide) east_coordinates
    ⟨Or.inl (by norm_num), by norm_num, by norm_num⟩
  obtain ⟨moveAz, moveEl, hMove, hAz, hEl⟩ := hmove (by decide)
  have hangles : handedAngles exactRuntime (east 1) = .ok (90, 0) := east_angles
  obtain ⟨rfl, rfl⟩ := Prod.mk.inj (Except.ok.inj (hexact.symm.trans hangles))
  have hwiden : ∀ {a : Float32} {θ : ℝ}, PointsAt (1 / 5000 + 58 * 2 ^ (-21 : ℤ)) a θ →
      PointsAt (1 / 4000) a θ := by
    rintro a θ ⟨q, hq, h0, h360, hnear⟩
    exact ⟨q, hq, h0, h360, hnear.mono (by norm_num)⟩
  exact ⟨j, moveAz, moveEl, hj, hMove, hwiden hAz, hwiden hEl⟩

/-! ## Targets that are too far away -/

/-- Infinitely far to the right, every point is seen straight ahead. -/
def FlatAtInfinity (rt : Runtime Float32) : Prop :=
  ∀ (y x : Float32) (v : ℚ), toRat y = some v → x.toModel.unpack = .infinity .positive →
    toRat (rt.atan2 y x) = some 0

/-- Zero radians are zero degrees. -/
theorem rad2deg_zero {a : Float32} (h : toRat a = some 0) : toRat (rad2deg a) = some 0 := by
  obtain ⟨p, hp, hnear⟩ := toRat_mul 0 h toRat_180 (by norm_num) (by norm_num) (by norm_num)
  rw [zero_mul] at hnear
  obtain rfl : p = 0 := le_antisymm (hnear.nonpos le_rfl) (hnear.nonneg le_rfl)
  obtain ⟨d, hd, hnear'⟩ := toRat_div 0 hp toRat_kPi (by norm_num) (by norm_num) (by norm_num)
    (by norm_num)
  rw [zero_div] at hnear'
  obtain rfl : d = 0 := le_antisymm (hnear'.nonpos le_rfl) (hnear'.nonneg le_rfl)
  exact hd

section

variable {rt : Runtime Float32} {δ : ℝ} {data : Bytes} {snapshot : SystemStateSnapshot}
  {x y z : ℚ}

/-- **The height of a far target is lost.** Where a coordinate is `2 ^ 64` or more its
square overflows, the distance is infinite, and the elevation that is sent is 0 however
high the target is. The azimuth is as good as ever. -/
theorem far_target_sent_level (hjson : rt.JsonLaws) (hatan : Atan2Range rt)
    (haccurate : Atan2Accurate rt δ) (hflat : FlatAtInfinity rt)
    (hsqrt : ∀ a, rt.sqrt a = a.sqrt) (hlround : LroundLaw rt.lround) (hfuel : 2 ≤ rt.fuel)
    (hk : messageKind data = some .cueing_order) (hc : Coordinates data x y z)
    (hfar : 2 ^ (64 : ℤ) ≤ |x| ∨ 2 ^ (64 : ℤ) ≤ |y|) : ∃ j az el, Emits rt data snapshot j ∧
      handedAngles exactRuntime data = .ok (az, el) ∧
      (u16At data 22 = 1 → ∃ moveAz moveEl, Move j (str "ABS") moveAz moveEl ∧
        PointsAt (1 / 5000 + 58 * δ) moveAz az ∧ toRat moveEl = some 0) ∧
      (u16At data 22 ≠ 1 → ∃ deltaAz, Delta j deltaAz 0 ∧ deltaAz ≤ 360 ∧
        NearMod 360 (1 / 2 + (1 / 5000 + 58 * δ)) deltaAz az) := by
  have hne : y ≠ 0 ∨ x ≠ 0 := by
    have hpos : (0 : ℚ) < 2 ^ (64 : ℤ) := by positivity
    rcases hfar with h | h
    · exact Or.inr (abs_pos.mp (hpos.trans_le h))
    · exact Or.inl (abs_pos.mp (hpos.trans_le h))
  obtain ⟨a, b, c, azimuth, azimuth360, hx, hy, hz, hangles, haz, hazNear⟩ :=
    handedAngles_near hatan haccurate hfuel hc hne
  have hlevel := rad2deg_zero (hflat c _ z hz
    ((congrArg (fun s : Float32 => s.toModel.unpack) (hsqrt _)).trans (length_overflow hx hy hfar)))
  -- zero is not wrapped
  have hel : normalize_0_360 rt (rad2deg (rt.atan2 c (rt.sqrt (a * a + b * b)))) =
      some (rad2deg (rt.atan2 c (rt.sqrt (a * a + b * b)))) := by
    obtain ⟨n, hn⟩ : ∃ n, rt.fuel = n + 1 := ⟨rt.fuel - 1, by omega⟩
    rw [normalize_0_360, mod360, hn, raiseLoop_exit hlevel le_rfl, Option.bind_some,
      lowerLoop_exit hlevel (by norm_num)]
  obtain ⟨j, hj, hMove, hDelta⟩ :=
    @command_of_angles rt data snapshot x y z hjson hk hc _ _ _ _ hangles haz hel
  refine ⟨j, _, _, hj, exactAngles hc, fun hmove => ⟨_, _, hMove hmove, hazNear, hlevel⟩,
    fun hdelta => ?_⟩
  obtain ⟨hazLe, hazNear'⟩ := hazNear.rounded hlround
  have hzero : rt.lround (rad2deg (rt.atan2 c (rt.sqrt (a * a + b * b)))) = 0 := by
    rw [hlround _ 0 hlevel (by norm_num), nearestInteger, if_pos le_rfl]
    norm_num
  have hDelta' := hDelta hdelta
  rw [hzero] at hDelta'
  exact ⟨_, hDelta', hazLe, hazNear'⟩

end

/-- A target far to the east and as far above. -/
def above : Bytes := position 1 0x62800000 0 0x62800000

theorem above_coordinates : Coordinates above (2 ^ 70) 0 (2 ^ 70) := by
  have hbits : u32At above 40 = 0x62800000 := by decide
  have hbits' : u32At above 48 = 0x62800000 := by decide
  have hfar : (Float32.ofBits 0x62800000).toModel.unpack =
      .finite .positive 8388608 47 (by decide) := rfl
  have hvalue : toRat (Float32.ofBits 0x62800000) = some (2 ^ 70) := by
    rw [toRat_const hfar]
    norm_num [signed]
  refine .spatial (Or.inr (by decide)) (by decide) ?_ (by exact rfl) ?_
  · rwa [HasValue, hbits]
  · rwa [HasValue, hbits']

/-- It is seen at 45 degrees. -/
theorem above_angles : handedAngles exactRuntime above = .ok (90, 45) := by
  have h := exactAngles above_coordinates
  have hexact : Atan2Degrees exactRuntime := atan2Degrees_of_arg fun _ _ => rfl
  have hsqrt : exactRuntime.sqrt (((2 ^ 70 : ℚ) : ℝ) * ((2 ^ 70 : ℚ) : ℝ) +
      ((0 : ℚ) : ℝ) * ((0 : ℚ) : ℝ)) = 2 ^ 70 := by
    show Real.sqrt _ = 2 ^ 70
    push_cast
    rw [mul_zero, add_zero, Real.sqrt_mul_self (by positivity)]
  have hangle : exactRuntime.atan2 ((2 ^ 70 : ℚ) : ℝ) (2 ^ 70) = Real.pi / 4 := by
    show Complex.arg ⟨2 ^ 70, ((2 ^ 70 : ℚ) : ℝ)⟩ = Real.pi / 4
    rw [arg_eq_arctan (by positivity)]
    push_cast
    rw [div_self (by positivity), Real.arctan_one]
  have hel : atan2deg exactRuntime ((2 ^ 70 : ℚ) : ℝ) (2 ^ 70) = 45 := by
    rw [atan2deg, hangle, rad2deg_eq]
    field_simp
    norm_num
  rw [hsqrt, hel, bearing, Rat.cast_zero, hexact.zero _ (by positivity), sub_zero,
    wrapped_eq_self (by norm_num) (by norm_num)] at h
  exact h

theorem nearest_flat : FlatAtInfinity nearest := by
  intro y x v hy hx
  have hnone : toRat x = none := by
    rw [toRat, hx]
    rfl
  rw [show nearest.atan2 y x = nearestAtan2 y x from rfl, nearestAtan2, hy, hnone]
  simp only [hx]
  exact toRat_0

/-- Its height is lost. -/
theorem far_target_sent_level_above : handedAngles exactRuntime above = .ok (90, 45) ∧
    ∃ j az el, Emits nearest above {} j ∧ Move j (str "ABS") az el ∧ toRat el = some 0 := by
  obtain ⟨j, az, el, hj, -, hmove, -⟩ := @far_target_sent_level nearest (2 ^ (-21 : ℤ)) above {}
    (2 ^ 70) 0 (2 ^ 70) (jsonLaws_withText _ _) nearest_atan2Range nearest_accurate nearest_flat
    (fun _ => rfl) (MissingNumbers.lroundWith_law 0) (by exact le_rfl) (by decide)
    above_coordinates (Or.inl (by norm_num))
  obtain ⟨moveAz, moveEl, hMove, -, hlevel⟩ := hmove (by decide)
  exact ⟨above_angles, j, moveAz, moveEl, hj, hMove, hlevel⟩

end CmsProxy.Accuracy
