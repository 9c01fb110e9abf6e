/-
Where the commands of a cueing order point, in exact arithmetic.

`MOVE` carries the wrapped angles. For a target whose coordinates the datagram has,
they are its nautical azimuth and its elevation, each as the one angle in `[0, 360)`;
without coordinates they are 0 and the LRAD is sent home (`move_points_at_target`).

`DELTA` carries the same angles in whole degrees. It rounds them after the wrap, so
what is less than half a degree below a full turn becomes 360, which is no angle of
the command's range. That decides between the two commands of twin datagrams
(`same_direction_iff`).
-/
import CmsProxy.Cueing
import CmsProxy.ExactReal

set_option autoImplicit false

namespace CmsProxy.Directions

open BigEndian Binary32 Interfaces JsonValue JsonText Decimal CueingMath Converter Orders Cueing
open ExactReal
open Reference (withText jsonLaws_withText scaledText position)

/-! ## Twin datagrams -/

/-- The datagrams differ in their cueing type only. -/
structure Twin (a b : Bytes) : Prop where
  length : a.length = b.length
  before : a.take 22 = b.take 22
  behind : a.drop 24 = b.drop 24

section

variable {a b : Bytes}

theorem Twin.wordAt_eq (h : Twin a b) {w off : ℕ} (hoff : off + w ≤ 22 ∨ 24 ≤ off) :
    wordAt w off a = wordAt w off b := by
  rcases hoff with hbefore | hbehind
  · exact wordAt_congr hbefore h.before
  · have key : ∀ c : Bytes, c.drop off = (c.drop 24).drop (off - 24) := by
      intro c
      rw [List.drop_drop, Nat.add_sub_cancel' hbehind]
    rw [wordAt, wordAt, key a, key b, h.behind]

theorem Twin.u16At_eq (h : Twin a b) {off : ℕ} (hoff : off + 2 ≤ 22 ∨ 24 ≤ off) :
    u16At a off = u16At b off := by
  rw [u16At, u16At, h.wordAt_eq hoff]

theorem Twin.u32At_eq (h : Twin a b) {off : ℕ} (hoff : off + 4 ≤ 22 ∨ 24 ≤ off) :
    u32At a off = u32At b off := by
  rw [u32At, u32At, h.wordAt_eq hoff]

/-- Twins are orders of one kind. -/
theorem Twin.messageKind_eq (h : Twin a b) : messageKind a = messageKind b := by
  have hheader : HeaderOk a ↔ HeaderOk b := by
    unfold HeaderOk declaredLength
    rw [h.length, h.u32At_eq (Or.inl (by norm_num))]
  rw [messageKind, messageKind, h.u32At_eq (Or.inl (by norm_num))]
  exact if_congr hheader rfl rfl

variable {F : Type} [CFloat F]

/-- Twins have the same coordinates. -/
theorem Twin.coordinatesAt_eq (h : Twin a b) :
    coordinatesAt F a (u16At a 36) = coordinatesAt F b (u16At b 36) := by
  rw [coordinatesAt, coordinatesAt, h.length, h.u16At_eq (Or.inr (by norm_num)),
    h.u32At_eq (Or.inr (by norm_num)), h.u32At_eq (Or.inr (by norm_num)),
    h.u32At_eq (Or.inr (by norm_num))]

theorem Twin.handedAngles_eq (h : Twin a b) (rt : Runtime F) :
    handedAngles rt a = handedAngles rt b := by
  rw [handedAngles, handedAngles, h.coordinatesAt_eq]

end

/-! ## The target -/

section

variable {rt : Runtime ℝ} {data : Bytes}

/-- The field at an offset holds this finite number. -/
def HasValue (data : Bytes) (off : ℕ) (q : ℚ) : Prop :=
  toRat (Float32.ofBits (u32At data off)) = some q

theorem ofBits_of_hasValue {off : ℕ} {q : ℚ} (h : HasValue data off q) :
    (CFloat.ofBits (u32At data off) : ℝ) = q := by
  show (((toRat (Float32.ofBits (u32At data off))).getD 0 : ℚ) : ℝ) = q
  rw [h, Option.getD_some]

/-- The datagram has coordinates, and these are their values. -/
inductive Coordinates (data : Bytes) (x y : ℚ) : ℚ → Prop where
  | spatial {z : ℚ} (kind : u16At data 36 = 1 ∨ u16At data 36 = 2) (size : 52 ≤ data.length)
      (hx : HasValue data 40 x) (hy : HasValue data 44 y) (hz : HasValue data 48 z) :
      Coordinates data x y z
  | flat (kind : u16At data 36 = 3 ∨ u16At data 36 = 4) (size : 48 ≤ data.length)
      (hx : HasValue data 40 x) (hy : HasValue data 44 y) : Coordinates data x y 0

theorem not_spatial {kinematicsType : UInt16} (h : kinematicsType = 3 ∨ kinematicsType = 4) :
    ¬ (kinematicsType = 1 ∨ kinematicsType = 2) := by
  rcases h with rfl | rfl
  · decide
  · decide

theorem Coordinates.read {x y z : ℚ} (h : Coordinates data x y z) :
    coordinatesAt ℝ data (u16At data 36) = ((x : ℝ), (y : ℝ), (z : ℝ), true) := by
  rw [coordinatesAt]
  cases h with
  | spatial kind size hx hy hz =>
      rw [if_pos kind, if_pos size, ofBits_of_hasValue hx, ofBits_of_hasValue hy,
        ofBits_of_hasValue hz]
  | flat kind size hx hy =>
      rw [if_neg (not_spatial kind), if_pos kind, if_pos size, ofBits_of_hasValue hx,
        ofBits_of_hasValue hy, whole_zero, Rat.cast_zero]

/-- The angles of a target with no offset of the reference point. -/
theorem cueing_angles_exact (hatan : Atan2Degrees rt) (hfuel : 2 ≤ rt.fuel) (x y z : ℝ) :
    cueing_angles rt x y z true = .ok (wrapped (bearing rt y x),
      atan2deg rt z (rt.sqrt (x * x + y * y))) := by
  have htarget := @cartesian2target_exact rt x y z 0 0 0 0 0 false _ rfl
    (mod360_bearing hatan _ _ hfuel) (fun htrue => absurd htrue Bool.false_ne_true)
  rw [cueing_angles, if_pos rfl, whole_zero, htarget]
  simp only [finished, ok_bind, pure_eq_ok, sub_zero, Bool.false_eq_true, if_false]

theorem handedAngles_of_coordinates (hatan : Atan2Degrees rt) (hfuel : 2 ≤ rt.fuel) {x y z : ℚ}
    (h : Coordinates data x y z) : handedAngles rt data = .ok (wrapped (bearing rt y x),
      atan2deg rt z (rt.sqrt ((x : ℝ) * x + (y : ℝ) * y))) := by
  rw [handedAngles, h.read]
  exact cueing_angles_exact hatan hfuel x y z

end

/-! ## Whole degrees -/

/-- The number is an angle of 0 to 359 whole degrees, and up to full turns there is
no whole number of degrees closer to `a`. -/
structure NearestDegree (a : ℝ) (n : ℕ) : Prop where
  range : n ≤ 359
  nearest : ∃ k : ℤ, ∀ m : ℤ, |a - ((n : ℝ) + 360 * k)| ≤ |a - m|

/-- A rounded angle, cut to 16 bits, is still the rounded angle. -/
theorem toNat_roundAway {a : ℝ} (h0 : 0 ≤ a) (h360 : a < 360) :
    ((UInt16.ofInt (roundAway a)).toNat : ℤ) = round a := by
  have hround : roundAway a = round a := by
    rw [roundAway, if_pos h0, round_eq]
  have hlo : 0 ≤ round a := by
    rw [round_eq]
    exact Int.floor_nonneg.mpr (by linarith)
  have hhi : round a < 361 := by
    rw [round_eq, Int.floor_lt]
    push_cast
    linarith
  rw [hround, UInt16.ofInt, UInt16.toNat_ofNat']
  omega

/-- **Rounding after the wrap** is right up to half a degree below the full turn. -/
theorem nearestDegree_iff {a : ℝ} (h0 : 0 ≤ a) (h360 : a < 360) :
    NearestDegree a (UInt16.ofInt (roundAway a)).toNat ↔ a < 359.5 := by
  have hn := toNat_roundAway h0 h360
  have hbound : (UInt16.ofInt (roundAway a)).toNat ≤ 359 ↔ a < 359.5 := by
    have hcast : (UInt16.ofInt (roundAway a)).toNat ≤ 359 ↔ round a < 360 := by omega
    rw [hcast, round_eq, Int.floor_lt]
    push_cast
    constructor <;> intro h <;> linarith
  rw [← hbound]
  constructor
  · intro h
    exact h.range
  · intro h
    refine ⟨h, 0, fun m => ?_⟩
    have hcast : ((UInt16.ofInt (roundAway a)).toNat : ℝ) = (round a : ℤ) := by
      rw [← hn, Int.cast_natCast]
    rw [hcast, Int.cast_zero, mul_zero, add_zero]
    exact round_le a m

/-! ## A runtime in exact arithmetic -/

/-- Real numbers are written in millionths. -/
noncomputable def millionths : FloatText ℝ :=
  scaledText (fun a => some ⌊a * (10 ^ 6 : ℕ)⌋) (fun n => n / (10 ^ 6 : ℕ))

/-- The real functions, with a JSON library. -/
noncomputable def exact : Runtime ℝ := withText millionths exactRuntime

theorem exact_atan2 : Atan2Degrees exact := atan2Degrees_of_arg fun _ _ => rfl

/-! ## Two datagrams -/

/-- A target to the east. -/
def east (cueingType : ℕ) : Bytes := position cueingType 0x3F800000 0 0

theorem east_coordinates : Coordinates (east 1) 1 0 0 := by
  have hbits : u32At (east 1) 40 = 0x3F800000 := by decide
  have hone : (Float32.ofBits 0x3F800000).toModel.unpack =
      .finite .positive 8388608 (-23) (by decide) := rfl
  refine .spatial (Or.inr (by decide)) (by decide) ?_ (by exact rfl) (by exact rfl)
  rw [HasValue, hbits, CueingBounds.toRat_const hone]
  norm_num [signed]

/-- A target to the east that is a little lower than the LRAD. -/
def lower (cueingType : ℕ) : Bytes := position cueingType 0x44800000 0 0xBF800000

theorem lower_coordinates : Coordinates (lower 1) 1024 0 (-1) := by
  have hbits : u32At (lower 1) 40 = 0x44800000 := by decide
  have hbits' : u32At (lower 1) 48 = 0xBF800000 := by decide
  have hx : (Float32.ofBits 0x44800000).toModel.unpack =
      .finite .positive 8388608 (-13) (by decide) := rfl
  have hz : (Float32.ofBits 0xBF800000).toModel.unpack =
      .finite .negative 8388608 (-23) (by decide) := rfl
  refine .spatial (Or.inr (by decide)) (by decide) ?_ (by exact rfl) ?_
  · rw [HasValue, hbits, CueingBounds.toRat_const hx]
    norm_num [signed]
  · rw [HasValue, hbits', CueingBounds.toRat_const hz]
    norm_num [signed]

theorem east_twin : Twin (east 1) (east 2) := ⟨rfl, by decide, by decide⟩

theorem lower_twin : Twin (lower 1) (lower 2) := ⟨rfl, by decide, by decide⟩

/-- The angles of the first target. -/
theorem east_angles : handedAngles exact (east 1) = .ok (90, 0) := by
  have h := handedAngles_of_coordinates exact_atan2 (by exact le_rfl) east_coordinates
  rw [Rat.cast_zero, bearing, exact_atan2.zero _ (by norm_num),
    exact_atan2.zero (exact.sqrt _) (Real.sqrt_nonneg _), sub_zero,
    wrapped_eq_self (by norm_num) (by norm_num)] at h
  exact h

/-- The second target is less than half a degree below. -/
theorem lower_angles : ∃ el, handedAngles exact (lower 1) = .ok (90, el) ∧ -0.5 ≤ el ∧ el < 0 := by
  have h := handedAngles_of_coordinates exact_atan2 (by exact le_rfl) lower_coordinates
  have hsqrt : exact.sqrt (((1024 : ℚ) : ℝ) * (1024 : ℚ) + 0 * 0) = 1024 := by
    show Real.sqrt _ = 1024
    rw [mul_zero, add_zero, Real.sqrt_mul_self (by norm_num), Rat.cast_ofNat]
  rw [Rat.cast_zero, bearing, exact_atan2.zero _ (by norm_num), hsqrt, sub_zero,
    wrapped_eq_self (by norm_num) (by norm_num)] at h
  refine ⟨_, h, ?_⟩
  obtain ⟨t, ht⟩ : ∃ t, t = Complex.arg ⟨1024, -1⟩ := ⟨_, rfl⟩
  have hatan : exact.atan2 ((-1 : ℚ) : ℝ) 1024 = t := by
    rw [ht, Rat.cast_neg, Rat.cast_one]
    rfl
  have hneg : t < 0 := by
    rw [ht, Complex.arg_neg_iff]
    norm_num
  have hquarter : |t| < Real.pi / 2 := by
    rw [ht, Complex.abs_arg_lt_pi_div_two_iff]
    exact Or.inl (by norm_num)
  -- the tangent is the slope, and is more than the angle
  have htan : -t < 1 / 1024 := by
    have hlt := Real.lt_tan (neg_pos.mpr hneg) (by linarith [(abs_lt.mp hquarter).1])
    rw [Real.tan_neg, ht, Complex.tan_arg] at hlt
    rw [ht]
    norm_num at hlt ⊢
    exact hlt
  have hpi := Real.pi_gt_three
  rw [atan2deg, rad2deg_eq, hatan]
  constructor
  · rw [le_div_iff₀ (by linarith)]
    linarith
  · exact div_neg_of_neg_of_pos (by linarith) (by linarith)

/-! ## The two commands of known angles -/

section

variable {rt : Runtime ℝ} {data : Bytes} {snapshot : SystemStateSnapshot} {az el : ℝ}

theorem normalize_0_360_exact (hfuel : 2 ≤ rt.fuel) {a : ℝ} (hlo : -360 ≤ a) (hhi : a < 360) :
    normalize_0_360 rt a = some (wrapped a) := by
  apply mod360_exact (k := 1)
  · push_cast
    linarith
  · push_cast
    linarith
  · exact hfuel

/-- The datagram of a `MOVE` command whose angles are known. -/
theorem move_emitted (hjson : rt.JsonLaws) (hk : messageKind data = some .cueing_order)
    (hsize : 38 ≤ data.length) (hmove : u16At data 22 = 1) (hfuel : 2 ≤ rt.fuel)
    (hangles : handedAngles rt data = .ok (az, el)) (haz0 : 0 ≤ az) (haz : az < 360)
    (hel0 : -180 < el) (hel : el ≤ 180) :
    ∃ j, Emits rt data snapshot j ∧
      Move j (if hasCoordinates data then str "ABS" else str "HOME") az (wrapped el) := by
  obtain ⟨command, hcommand, hMove⟩ := move_command
    (normalize_0_360_exact hfuel (by linarith) haz)
    (normalize_0_360_exact hfuel (show -360 ≤ el by linarith) (by linarith))
    (hasCoordinates data) (cueingMeta data)
  rw [← hmove] at hcommand
  rw [wrapped_eq_self haz0 haz] at hMove
  exact ⟨_, cueing_emits hjson hk hsize hangles hcommand, hMove⟩

/-- The datagram of a `DELTA` command whose angles are known. -/
theorem delta_emitted (hjson : rt.JsonLaws) (hround : ∀ a, rt.lround a = roundAway a)
    (hk : messageKind data = some .cueing_order)
    (hsize : 38 ≤ data.length) (hdelta : u16At data 22 ≠ 1) (hfuel : 2 ≤ rt.fuel)
    (hangles : handedAngles rt data = .ok (az, el)) (haz0 : 0 ≤ az) (haz : az < 360)
    (hel0 : -180 < el) (hel : el ≤ 180) :
    ∃ j, Emits rt data snapshot j ∧
      Delta j (UInt16.ofInt (roundAway az)).toNat
        (UInt16.ofInt (roundAway (wrapped el))).toNat := by
  obtain ⟨command, hcommand, hDelta⟩ := delta_command hdelta
    (normalize_0_360_exact hfuel (by linarith) haz)
    (normalize_0_360_exact hfuel (show -360 ≤ el by linarith) (by linarith))
    (hasCoordinates data) (cueingMeta data)
  rw [hround, hround, wrapped_eq_self haz0 haz] at hDelta
  exact ⟨_, cueing_emits hjson hk hsize hangles hcommand, hDelta⟩

end

/-! ## The two commands of twin datagrams -/

section

variable {rt : Runtime ℝ} {data twin : Bytes} {snapshot : SystemStateSnapshot}

/-- An elevation is taken between 0 and 360 with a full turn more where it is negative. -/
theorem wrapped_elevation_lt_iff {el : ℝ} (hlo : -90 ≤ el) (hhi : el ≤ 90) :
    wrapped el < 359.5 ↔ ¬ (-0.5 ≤ el ∧ el < 0) := by
  by_cases h0 : 0 ≤ el
  · rw [wrapped_eq_self h0 (by linarith)]
    exact iff_of_true (by linarith) (fun h => absurd h.2 (not_lt.mpr h0))
  · rw [wrapped_of_neg (by linarith) (not_le.mp h0)]
    constructor
    · rintro h ⟨hel, -⟩
      linarith
    · intro h
      by_contra hge
      exact h ⟨by linarith, not_le.mp h0⟩

/-- **One direction.** Twin datagrams, one for `MOVE` and one for `DELTA`, are handed
the same two angles. Both numbers of `DELTA` are whole degrees nearest to the numbers
of `MOVE` if and only if the azimuth is not within the last half degree before a full
turn and the elevation not within the half degree below 0. -/
theorem same_direction_iff (hjson : rt.JsonLaws) (hround : ∀ a, rt.lround a = roundAway a)
    (hfuel : 2 ≤ rt.fuel) (htwin : Twin data twin)
    (hk : messageKind data = some .cueing_order) (hsize : 38 ≤ data.length)
    (hmove : u16At data 22 = 1) (hdelta : u16At twin 22 ≠ 1) {az el : ℝ}
    (hangles : handedAngles rt data = .ok (az, el)) (haz0 : 0 ≤ az) (haz : az < 360)
    (hel0 : -90 ≤ el) (hel : el ≤ 90) :
    ∃ move delta goTo moveAz moveEl deltaAz deltaEl,
      Emits rt data snapshot move ∧ Move move goTo moveAz moveEl ∧
      Emits rt twin snapshot delta ∧ Delta delta deltaAz deltaEl ∧
      (NearestDegree moveAz deltaAz ∧ NearestDegree moveEl deltaEl ↔
        az < 359.5 ∧ ¬ (-0.5 ≤ el ∧ el < 0)) := by
  obtain ⟨move, hmoveEmits, hMove⟩ := @move_emitted rt data snapshot az el hjson hk hsize hmove
    hfuel hangles haz0 haz (by linarith) (by linarith)
  obtain ⟨delta, hdeltaEmits, hDelta⟩ := @delta_emitted rt twin snapshot az el hjson hround
    (htwin.messageKind_eq ▸ hk) (htwin.length ▸ hsize) hdelta hfuel
    (htwin.handedAngles_eq rt ▸ hangles) haz0 haz (by linarith) (by linarith)
  obtain ⟨hello, helhi⟩ := wrapped_mem el
  refine ⟨move, delta, _, _, _, _, _, hmoveEmits, hMove, hdeltaEmits, hDelta, ?_⟩
  rw [nearestDegree_iff haz0 haz, nearestDegree_iff hello helhi, wrapped_elevation_lt_iff hel0 hel]

end

/-- Of a target at the height of the LRAD. -/
theorem same_direction_iff_level : ∃ move delta goTo moveAz moveEl deltaAz deltaEl,
    Emits exact (east 1) {} move ∧ Move move goTo moveAz moveEl ∧
      Emits exact (east 2) {} delta ∧ Delta delta deltaAz deltaEl ∧
      NearestDegree moveAz deltaAz ∧ NearestDegree moveEl deltaEl := by
  obtain ⟨move, delta, goTo, moveAz, moveEl, deltaAz, deltaEl, hmove, hMove, hdelta, hDelta,
      hiff⟩ :=
    @same_direction_iff exact (east 1) (east 2) {} (jsonLaws_withText _ _) (fun _ => rfl)
      (by exact le_rfl) east_twin (by decide) (by decide) (by decide) (by decide) 90 0 east_angles
      (by norm_num) (by norm_num) (by norm_num) (by norm_num)
  exact ⟨move, delta, goTo, moveAz, moveEl, deltaAz, deltaEl, hmove, hMove, hdelta, hDelta,
    hiff.mpr ⟨by norm_num, by norm_num⟩⟩

/-- A target that is a little lower has the elevation 360 in whole degrees. -/
theorem full_turn_sent : ∃ move delta moveEl,
    Twin (lower 1) (lower 2) ∧ Emits exact (lower 1) {} move ∧ Move move (str "ABS") 90 moveEl ∧
      Emits exact (lower 2) {} delta ∧ Delta delta 90 360 ∧ ¬ NearestDegree moveEl 360 := by
  obtain ⟨el, hangles, hlo, hhi⟩ := lower_angles
  have hround : roundAway (wrapped el) = 360 := by
    rw [wrapped_of_neg (by linarith) hhi, roundAway, if_pos (by linarith), Int.floor_eq_iff]
    push_cast
    constructor <;> linarith
  have hround' : roundAway 90 = 90 := by
    rw [roundAway, if_pos (by norm_num), Int.floor_eq_iff]
    norm_num
  obtain ⟨move, hmove, hMove⟩ := @move_emitted exact (lower 1) {} 90 el (jsonLaws_withText _ _)
    (by decide) (by decide) (by decide) (by exact le_rfl) hangles (by norm_num) (by norm_num)
    (by linarith) (by linarith)
  obtain ⟨delta, hdelta, hDelta⟩ := @delta_emitted exact (lower 2) {} 90 el (jsonLaws_withText _ _)
    (fun _ => rfl) (by decide) (by decide) (by decide) (by exact le_rfl)
    (lower_twin.handedAngles_eq exact ▸ hangles) (by norm_num) (by norm_num) (by linarith)
    (by linarith)
  rw [hround, hround'] at hDelta
  exact ⟨move, delta, _, lower_twin, hmove, hMove, hdelta, hDelta,
    fun h => absurd h.range (by norm_num)⟩

/-! ## The command to move -/

section

variable {rt : Runtime ℝ} {data : Bytes} {snapshot : SystemStateSnapshot}

/-- Without coordinates both angles are 0. -/
theorem cueing_angles_home (x y z : ℝ) : cueing_angles rt x y z false = .ok (0, 0) := by
  rw [cueing_angles, if_neg Bool.false_ne_true, pure_eq_ok, whole_zero]

/-- **`MOVE` points at the target.** The one datagram sent for an accepted cueing order
of type 1 is a `MOVE` command. With coordinates its angles are the azimuth and the
elevation of the target, and the elevation is 0 where the order has no height; without
coordinates the LRAD is sent home. -/
theorem move_points_at_target (hjson : rt.JsonLaws) (hatan : Atan2Degrees rt)
    (hsqrt : ∀ a, rt.sqrt a = Real.sqrt a) (hfuel : 2 ≤ rt.fuel)
    (hk : messageKind data = some .cueing_order) (hmove : u16At data 22 = 1)
    (haccepted : Accepted rt data snapshot) :
    ∃ j goTo az el, Emits rt data snapshot j ∧ Move j goTo az el ∧
      (∀ x y z, Coordinates data x y z → goTo = str "ABS" ∧
        TheAngle (90 - atan2deg rt y x) az ∧
        TheAngle (atan2deg rt z (Real.sqrt ((x : ℝ) ^ 2 + (y : ℝ) ^ 2))) el) ∧
      (u16At data 36 = 3 ∨ u16At data 36 = 4 → el = 0) ∧
      (hasCoordinates data = false → goTo = str "HOME" ∧ az = 0 ∧ el = 0) := by
  have hsize : 38 ≤ data.length := size_of_accepted hk (by decide) haccepted
  obtain ⟨⟨x, y, z, has⟩, hread⟩ :
      ∃ c, coordinatesAt ℝ data (u16At data 36) = c := ⟨_, rfl⟩
  have hpresent := @coordinatesAt_present ℝ _ data
  have hflat : u16At data 36 = 3 ∨ u16At data 36 = 4 → z = 0 := by
    intro h34
    rw [coordinatesAt, if_neg (not_spatial h34), if_pos h34] at hread
    split_ifs at hread <;> obtain ⟨-, -, rfl, -⟩ := hread <;> exact whole_zero
  rw [hread] at hpresent
  have hangles : handedAngles rt data = cueing_angles rt x y z has := by
    rw [handedAngles, hread]
  cases has with
  | false =>
      obtain ⟨j, hj, hMove⟩ := move_emitted hjson hk hsize hmove hfuel
        (hangles.trans (cueing_angles_home x y z)) le_rfl turn_pos (by norm_num) (by norm_num)
      rw [← hpresent, if_neg Bool.false_ne_true, wrapped_eq_self le_rfl turn_pos] at hMove
      refine ⟨j, _, 0, 0, hj, hMove, fun x y z hc => ?_, fun _ => rfl, fun _ => ⟨rfl, rfl, rfl⟩⟩
      rw [hc.read] at hread
      exact absurd (congrArg (fun c => c.2.2.2) hread) Bool.noConfusion
  | true =>
      obtain ⟨j, hj, hMove⟩ := move_emitted hjson hk hsize hmove hfuel
        (hangles.trans (cueing_angles_exact hatan hfuel x y z)) (wrapped_mem _).1 (wrapped_mem _).2
        (hatan.lt _ _) (hatan.le _ _)
      rw [← hpresent, if_pos rfl] at hMove
      refine ⟨j, _, _, _, hj, hMove, fun x' y' z' hc => ?_, fun h34 => ?_, fun hno => ?_⟩
      · rw [hc.read] at hread
        obtain ⟨rfl, rfl, rfl, -⟩ := hread
        refine ⟨rfl, theAngle_wrapped _, ?_⟩
        rw [hsqrt, ← pow_two, ← pow_two]
        exact theAngle_wrapped _
      · rw [hflat h34, hatan.zero _ (by rw [hsqrt]; exact Real.sqrt_nonneg _),
          wrapped_eq_self le_rfl turn_pos]
      · rw [← hpresent] at hno
        exact absurd hno Bool.noConfusion

end

/-- Of a target to the east. -/
theorem move_points_at_target_east :
    ∃ j, Emits exact (east 1) {} j ∧ Move j (str "ABS") 90 0 := by
  obtain ⟨j₀, hj₀, -⟩ := @move_emitted exact (east 1) {} 90 0 (jsonLaws_withText _ _)
    (by decide) (by decide) (by decide) (by exact le_rfl) east_angles (by norm_num) (by norm_num)
    (by norm_num) (by norm_num)
  obtain ⟨j, goTo, az, el, hj, hMove, htarget, -, -⟩ :=
    @move_points_at_target exact (east 1) {} (jsonLaws_withText _ _) exact_atan2 (fun _ => rfl)
      (by exact le_rfl) (by decide) (by decide) hj₀.accepted
  obtain ⟨rfl, haz, hel⟩ := htarget 1 0 0 east_coordinates
  rw [Rat.cast_zero, exact_atan2.zero _ (by norm_num), sub_zero] at haz
  rw [Rat.cast_zero, exact_atan2.zero _ (Real.sqrt_nonneg _)] at hel
  obtain rfl := (haz 90).mp ⟨by norm_num, by norm_num, AddCommGroup.modEq_rfl⟩
  obtain rfl := (hel 0).mp ⟨le_rfl, turn_pos, AddCommGroup.modEq_rfl⟩
  exact ⟨j, hj, hMove⟩

end CmsProxy.Directions
