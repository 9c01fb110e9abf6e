/-
The angle computations terminate, on the machine's floats.

`mod360` is two loops around a rounded addition; nothing in its text bounds
their rounds. What bounds them is where the angles come from: the converter only
ever passes it `90 - rad2deg(atan2(..))`, `rad2deg(atan2(..))` and results of
itself, and `atan2` returns NaN or a number from -pi to pi. Under that one fact
about the library each loop does one round at most (`mod360_finishes`), so
`cartesian2target` and everything the cueing handler does with its angles ends.
Where coordinates are NaN or infinite the angles are NaN, and the loops end at
once because no comparison with NaN holds.
-/
import CmsProxy.Binary32
import CmsProxy.CueingMath

set_option autoImplicit false

namespace CmsProxy.CueingBounds

open Binary32 Interfaces CueingMath Runs

/-- `std::atan2` returns NaN or a value from -pi to pi; the `float` nearest pi is
`kPi`. -/
def Atan2Range (rt : Runtime Float32) : Prop :=
  ∀ y x : Float32, IsNaN (rt.atan2 y x) ∨ (-kPi Float32 ≤ rt.atan2 y x ∧ rt.atan2 y x ≤ kPi Float32)

/-! ## The constants -/

/-- The value of a constant, read off its unpacked form. -/
theorem toRat_const {a : Float32} {s : Float.Model.UnpackedFloat.Sign} {m : ℕ} {e : ℤ} {hm : 0 < m}
    (h : a.toModel.unpack = .finite s m e hm) : toRat a = some (signed s (m * 2 ^ e)) := by
  rw [toRat, h, value]

theorem toRat_0 : toRat (whole Float32 0) = some 0 := rfl

theorem toRat_90 : toRat (whole Float32 90) = some 90 := by
  have h : (whole Float32 90).toModel.unpack = .finite .positive 11796480 (-17) (by decide) := rfl
  rw [toRat_const h]
  norm_num [signed]

theorem toRat_180 : toRat (whole Float32 180) = some 180 := by
  have h : (whole Float32 180).toModel.unpack = .finite .positive 11796480 (-16) (by decide) := rfl
  rw [toRat_const h]
  norm_num [signed]

theorem toRat_360 : toRat (whole Float32 360) = some 360 := by
  have h : (whole Float32 360).toModel.unpack = .finite .positive 11796480 (-15) (by decide) := rfl
  rw [toRat_const h]
  norm_num [signed]

theorem toRat_kPi : toRat (kPi Float32) = some (13176795 / 4194304) := by
  have h : (kPi Float32).toModel.unpack = .finite .positive 13176795 (-22) (by decide) := rfl
  rw [toRat_const h]
  norm_num [signed]

theorem toRat_neg_kPi : toRat (-kPi Float32) = some (-(13176795 / 4194304)) := by
  have h : (-kPi Float32).toModel.unpack = .finite .negative 13176795 (-22) (by decide) := rfl
  rw [toRat_const h]
  norm_num [signed]

/-! ## One round of each loop -/

section

variable {fuel : ℕ} {a : Float32}

theorem raiseLoop_exit {q : ℚ} (hq : toRat a = some q) (h0 : 0 ≤ q) :
    raiseLoop (fuel + 1) a = some a := by
  apply whileLoop_exit
  rw [decide_eq_false_iff_not, lt_iff hq toRat_0]
  exact not_lt.mpr h0

theorem raiseLoop_round {q : ℚ} (hq : toRat a = some q) (h0 : q < 0) :
    raiseLoop (fuel + 1) a = raiseLoop fuel (a + whole Float32 360) := by
  apply whileLoop_round
  rw [decide_eq_true_iff, lt_iff hq toRat_0]
  exact h0

theorem lowerLoop_exit {q : ℚ} (hq : toRat a = some q) (h360 : q < 360) :
    lowerLoop (fuel + 1) a = some a := by
  apply whileLoop_exit
  rw [decide_eq_false_iff_not, le_iff toRat_360 hq]
  exact not_le.mpr h360

theorem lowerLoop_round {q : ℚ} (hq : toRat a = some q) (h360 : 360 ≤ q) :
    lowerLoop (fuel + 1) a = lowerLoop fuel (a - whole Float32 360) := by
  apply whileLoop_round
  rw [decide_eq_true_iff, le_iff toRat_360 hq]
  exact h360

/-- From at most one turn below zero, one addition is enough. -/
theorem raiseLoop_finishes {q : ℚ} (hq : toRat a = some q) (hlo : -360 ≤ q) (hhi : q < 700) :
    ∃ r q', raiseLoop 2 a = some r ∧ toRat r = some q' ∧ 0 ≤ q' ∧ q' < 700 := by
  by_cases h0 : 0 ≤ q
  · exact ⟨a, q, raiseLoop_exit hq h0, hq, h0, hhi⟩
  · -- one round adds a full turn, up to rounding
    have h0' : q < 0 := not_le.mp h0
    obtain ⟨q', hq', hnear⟩ := toRat_add 9 hq toRat_360 (by norm_num) (by norm_num)
      (by rw [abs_of_nonneg (by linarith)]; norm_num; linarith)
    have hnonneg : 0 ≤ q' := hnear.nonneg (by linarith)
    have hle := (hnear.between (-1) 361 (by norm_num; linarith)
      (by norm_num; linarith)).2
    exact ⟨_, q', (raiseLoop_round hq h0').trans (raiseLoop_exit hq' hnonneg), hq', hnonneg,
      by linarith⟩

/-- From less than two turns above zero, one subtraction is enough. -/
theorem lowerLoop_finishes {q : ℚ} (hq : toRat a = some q) (hlo : 0 ≤ q) (hhi : q < 700) :
    ∃ r q', lowerLoop 2 a = some r ∧ toRat r = some q' ∧ 0 ≤ q' ∧ q' < 360 := by
  by_cases h360 : q < 360
  · exact ⟨a, q, lowerLoop_exit hq h360, hq, hlo, h360⟩
  · -- one round takes a full turn off, up to rounding
    have h360' : 360 ≤ q := not_lt.mp h360
    obtain ⟨q', hq', hnear⟩ := toRat_sub 9 hq toRat_360 (by norm_num) (by norm_num)
      (by rw [abs_of_nonneg (by linarith)]; norm_num; linarith)
    have hnonneg : 0 ≤ q' := hnear.nonneg (by linarith)
    have hle := (hnear.between (-1) 341 (by norm_num; linarith) (by norm_num; linarith)).2
    exact ⟨_, q', (lowerLoop_round hq h360').trans (lowerLoop_exit hq' (by linarith)), hq', hnonneg,
      by linarith⟩

/-- An angle after the wrap: NaN, or from 0 to less than a full turn. -/
def Wrapped (r : Float32) : Prop := IsNaN r ∨ ∃ q, toRat r = some q ∧ 0 ≤ q ∧ q < 360

/-- Two rounds of each loop are enough for a number from one turn below zero to
somewhat less than two above. -/
theorem mod360_number (hfuel : 2 ≤ fuel) {q : ℚ} (hq : toRat a = some q) (hlo : -360 ≤ q)
    (hhi : q ≤ 699) : ∃ r q', mod360 fuel a = some r ∧ toRat r = some q' ∧ 0 ≤ q' ∧ q' < 360 := by
  obtain ⟨b, q', hb, hq', hlo', hhi'⟩ := raiseLoop_finishes hq hlo (by linarith)
  obtain ⟨r, q'', hr, hq'', hbounds⟩ := lowerLoop_finishes hq' hlo' hhi'
  -- what two rounds return is what `fuel` rounds return
  have hraise : raiseLoop fuel a = some b := whileLoop_mono hfuel hb
  refine ⟨r, q'', ?_, hq'', hbounds⟩
  rw [mod360, hraise, Option.bind_some]
  exact whileLoop_mono hfuel hr

/-- Every comparison with NaN is false, so neither loop is entered. -/
theorem mod360_isNaN (hfuel : 2 ≤ fuel) (ha : IsNaN a) : mod360 fuel a = some a := by
  obtain ⟨n, rfl⟩ : ∃ n, fuel = n + 1 := ⟨fuel - 1, by omega⟩
  have hraise : raiseLoop (n + 1) a = some a :=
    whileLoop_exit (decide_eq_false (not_lt_of_isNaN ha))
  rw [mod360, hraise, Option.bind_some]
  exact whileLoop_exit (decide_eq_false (not_le_of_isNaN ha))

/-- **The wrap ends**, on NaN and on such numbers. -/
theorem mod360_finishes (hfuel : 2 ≤ fuel) (ha : Within (-360) 699 a) :
    ∃ r, mod360 fuel a = some r ∧ Wrapped r := by
  rcases ha with hnan | ⟨q, hq, hlo, hhi⟩
  · exact ⟨a, mod360_isNaN hfuel hnan, Or.inl hnan⟩
  · obtain ⟨r, q', hr, hq', hbounds⟩ := mod360_number hfuel hq hlo hhi
    exact ⟨r, hr, Or.inr ⟨q', hq', hbounds⟩⟩

theorem Wrapped.within (ha : Wrapped a) : Within (-360) 699 a := by
  rcases ha with hnan | ⟨q, hq, hlo, hhi⟩
  · exact Or.inl hnan
  · exact Or.inr ⟨q, hq, by linarith, by linarith⟩

end

/-! ## From `atan2` to the angles of a target -/

section

variable {rt : Runtime Float32}

/-- The range of `atan2` is given by floats; as numbers it is this. -/
theorem atan2_within (h : Atan2Range rt) (y x : Float32) :
    Within (-(13176795 / 4194304)) (13176795 / 4194304) (rt.atan2 y x) := by
  rcases h y x with hnan | ⟨hlo, hhi⟩
  · exact Or.inl hnan
  · exact Or.inr (toRat_of_le_of_le toRat_neg_kPi toRat_kPi hlo hhi)

/-- Half a turn either way in degrees, and a little more where rounding went up. -/
theorem rad2deg_number {c : Float32} {q : ℚ} (hq : toRat c = some q)
    (hlo : -(13176795 / 4194304) ≤ q) (hhi : q ≤ 13176795 / 4194304) :
    ∃ q', toRat (rad2deg c) = some q' ∧ -181 ≤ q' ∧ q' ≤ 181 := by
  obtain ⟨p, hp, hnear⟩ := toRat_mul 10 hq toRat_180 (by norm_num) (by norm_num)
    (by rw [abs_lt]; norm_num; constructor <;> linarith)
  obtain ⟨hplo, hphi⟩ := hnear.between (-566) 566 (by norm_num; linarith) (by norm_num; linarith)
  -- dividing by `kPi` is multiplying by its inverse, which is linear in `p`
  have hdiv : p / (13176795 / 4194304) = p * (4194304 / 13176795) := by
    field_simp
  obtain ⟨q', hq', hnear'⟩ := toRat_div 8 hp toRat_kPi (by norm_num) (by norm_num) (by norm_num)
    (by rw [abs_lt, hdiv]; norm_num; constructor <;> linarith)
  rw [hdiv] at hnear'
  exact ⟨q', hq', hnear'.between _ _ (by norm_num; linarith) (by norm_num; linarith)⟩

theorem IsNaN.rad2deg {c : Float32} (hc : IsNaN c) : IsNaN (rad2deg c) :=
  (hc.mul_left _).div_left _

/-- The bearing of a point, in degrees. -/
theorem rad2deg_within (h : Atan2Range rt) (y x : Float32) :
    Within (-181) 181 (rad2deg (rt.atan2 y x)) :=
  (atan2_within h y x).map rad2deg (fun _ hc => IsNaN.rad2deg hc)
    (fun _ _ hq hlo hhi => rad2deg_number hq hlo hhi)

/-- The azimuth before the wrap. -/
theorem nautical_number {c : Float32} {q : ℚ} (hq : toRat c = some q) (hlo : -181 ≤ q)
    (hhi : q ≤ 181) : ∃ q', toRat (whole Float32 90 - c) = some q' ∧ -360 ≤ q' ∧ q' ≤ 699 := by
  obtain ⟨q', hq', hnear⟩ := toRat_sub 10 toRat_90 hq (by norm_num) (by norm_num)
    (by rw [abs_lt]; norm_num; constructor <;> linarith)
  exact ⟨q', hq', hnear.between _ _ (by norm_num; linarith) (by norm_num; linarith)⟩

theorem nautical_within (h : Atan2Range rt) (y x : Float32) :
    Within (-360) 699 (whole Float32 90 - rad2deg (rt.atan2 y x)) :=
  (rad2deg_within h y x).map (fun c => whole Float32 90 - c) (fun _ hc => hc.sub_right _)
    (fun _ _ hq hlo hhi => nautical_number hq hlo hhi)

/-- **Angles of a target.** Away from the true-bearing mode, which the converter
does not use, `cartesian2target` ends whatever the coordinates are, and both its
angles can be wrapped again. -/
theorem cartesian2target_finishes (hfuel : 2 ≤ rt.fuel) (h : Atan2Range rt)
    (x y z az crpX crpY crpZ heading : Float32) :
    ∃ t, cartesian2target rt x y z az false crpX crpY crpZ heading = some t ∧
      Within (-360) 699 t.az ∧ Within (-360) 699 t.el := by
  obtain ⟨r, hr, hwrapped⟩ := mod360_finishes hfuel (nautical_within h (y - crpY) (x - crpX))
  rw [cartesian2target]
  simp only [hr, Option.bind_eq_bind, Option.bind_some]
  -- the azimuth is the wrapped one; the elevation is not wrapped at all
  refine ⟨_, rfl, hwrapped.within, ?_⟩
  rcases rad2deg_within h (z - crpZ) _ with hnan | ⟨q, hq, hlo, hhi⟩
  · exact Or.inl hnan
  · exact Or.inr ⟨q, hq, by linarith, by linarith⟩

end

end CmsProxy.CueingBounds
