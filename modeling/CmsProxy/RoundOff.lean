/-
Round-off, relative to the result.

`Binary32.lean` bounds the error of an operation by the size its result may have.
Here it is bounded by the result itself, which is what an error analysis goes on
with: sums and products are off by one part in `2 ^ 24` at most, or by `2 ^ -150`
where the result is too small for that (`RoundedOff`), and roots by one part in
`2 ^ 22` (`toRat_sqrt`).

Together they give the length of a plane vector (`toRat_length`): its relative error
is below `2 ^ -20` as long as the squares neither overflow nor vanish, and it is
infinite where they overflow (`length_overflow`).
-/
import CmsProxy.Nearest
import CmsProxy.NonFinite

set_option autoImplicit false

namespace CmsProxy.Binary32

open Float.Model Float.Model.UnpackedFloat

/-! ## The four operations -/

/-- `q` is `x` up to half a unit in the last place. -/
def RoundedOff (x q : ℚ) : Prop := |q - x| ≤ 2 ^ (-24 : ℤ) * |x| + 2 ^ (-150 : ℤ)

/-- The error of an operation, as a real number. -/
theorem Near.cast {N : ℤ} {x q : ℚ} (h : Near N x q) : |(q : ℝ) - (x : ℝ)| ≤ 2 ^ (N - 25) := by
  have herr := (Rat.cast_le (K := ℝ)).mpr h.error
  simpa only [Rat.cast_abs, Rat.cast_sub, Rat.cast_zpow, Rat.cast_ofNat] using herr

/-- **Rounding off.** A unit in the last place is one part in `2 ^ 23` at most, unless
it is the smallest there is. -/
theorem RoundsTo.roundedOff {x : ℚ} {u : UnpackedFloat} (h : RoundsTo x u) :
    ∃ q, value u = some q ∧ RoundedOff x q := by
  obtain ⟨-, s, t, m, q, rfl, hm, hval, hgrid⟩ := h
  refine ⟨signed s q, hval, ?_⟩
  rw [RoundedOff, abs_signed_sub, abs_signed s hm]
  refine hgrid.error.trans ?_
  rcases hgrid.unit with rfl | hunit
  · have hhalf : (2 : ℚ) ^ (-149 : ℤ) / 2 = 2 ^ (-150 : ℤ) := by norm_num
    rw [hhalf]
    exact le_add_of_nonneg_left (by positivity)
  · have hhalf : (2 : ℚ) ^ t / 2 = 2 ^ (-24 : ℤ) * 2 ^ (t + 23) := by
      rw [zpow_add₀ (by norm_num)]
      ring
    rw [hhalf]
    refine le_add_of_le_of_nonneg ?_ (by positivity)
    gcongr

section

variable {a b : Float32} {x y : ℚ}

theorem toRat_roundedOff {u : UnpackedFloat} (h : RoundsTo x u) :
    ∃ q, toRat (.ofModel (.pack u)) = some q ∧ RoundedOff x q := by
  obtain ⟨q, hval, hq⟩ := h.roundedOff
  refine ⟨q, ?_, hq⟩
  rw [toRat, unpack_pack h.1]
  exact hval

theorem toRat_add_roundedOff (hx : toRat a = some x) (hy : toRat b = some y)
    (hmax : |x + y| ≤ maxFinite) : ∃ q, toRat (a + b) = some q ∧ RoundedOff (x + y) q :=
  toRat_roundedOff (add_rounds (canonical_unpack _) (canonical_unpack _) hx hy hmax)

theorem toRat_mul_roundedOff (hx : toRat a = some x) (hy : toRat b = some y)
    (hmax : |x * y| ≤ maxFinite) : ∃ q, toRat (a * b) = some q ∧ RoundedOff (x * y) q :=
  toRat_roundedOff (mul_rounds (canonical_unpack _) (canonical_unpack _) hx hy hmax)

/-- Taking zero away is exact. -/
theorem toRat_sub_zero (hx : toRat a = some x) (hy : toRat b = some 0) :
    toRat (a - b) = some x := by
  have hmax : |x - 0| ≤ maxFinite := by
    rw [sub_zero]
    exact abs_le_maxFinite (canonical_unpack _) hx
  have hrounds := sub_rounds (canonical_unpack _) (canonical_unpack _) hx hy hmax
  obtain ⟨q, hval, hnearest⟩ := hrounds.nearest
  have hzero := hnearest _ x (canonical_unpack _) hx
  rw [sub_zero, sub_self, abs_zero] at hzero
  obtain rfl : q = x := sub_eq_zero.mp (abs_nonpos_iff.mp hzero)
  show value (Float32.Model.pack _).unpack = some q
  rw [unpack_pack hrounds.1]
  exact hval

end

/-! ## Roots -/

/-- How the remainder of a root is classified. -/
def rootAccuracy (n : ℕ) : Accuracy :=
  if n - n.sqrt * n.sqrt = 0 then .exact
  else .inexact (if n - n.sqrt * n.sqrt ≤ n.sqrt then .lt else .gt)

/-- The quantity that is rounded for a root lies in the same unit as the root. -/
theorem holds_root (n : ℕ) :
    ∃ y : ℚ, Holds (ExtendedMantissa.ofMantissaAndAccuracy n.sqrt (rootAccuracy n)) y := by
  unfold rootAccuracy
  split_ifs
  · exact ⟨_, holds_exact _⟩
  · refine ⟨n.sqrt + 1 / 4, ?_⟩
    constructor <;> norm_num [ExtendedMantissa.ofMantissaAndAccuracy]
  · refine ⟨n.sqrt + 3 / 4, ?_⟩
    constructor <;> norm_num [ExtendedMantissa.ofMantissaAndAccuracy]

theorem sqrt_between (n : ℕ) : (n.sqrt : ℝ) ≤ √(n : ℝ) ∧ √(n : ℝ) < n.sqrt + 1 := by
  constructor
  · exact Real.le_sqrt_of_sq_le (by exact_mod_cast Nat.sqrt_le' n)
  · rw [Real.sqrt_lt' (by positivity)]
    exact_mod_cast Nat.lt_succ_sqrt' n

/-- A root has half the bits. -/
theorem log2_div_two_le (n : ℕ) (hn : n ≠ 0) : n.log2 / 2 ≤ n.sqrt.log2 := by
  have hsq : 2 ^ (n.log2 / 2) * 2 ^ (n.log2 / 2) ≤ n := by
    rw [← pow_add]
    exact (Nat.pow_le_pow_right (by norm_num) (by omega)).trans (Nat.log2_self_le hn)
  have hroot := Nat.le_sqrt.mpr hsq
  exact (Nat.le_log2 (by positivity)).mpr hroot

/-- Before the root is taken the mantissa is extended to an even exponent, so far
that the root has 24 bits. -/
theorem sqrtCore_spec {m : ℕ} {e : ℤ} (hm : 0 < m) (he : -149 ≤ e) :
    ∃ (n : ℕ) (t : ℤ), sqrtCore Format.binary32 m e = (n.sqrt, t, rootAccuracy n) ∧
      (n : ℚ) * (2 ^ t * 2 ^ t) = m * 2 ^ e ∧ 23 ≤ n.sqrt.log2 ∧ -75 ≤ n.sqrt.log2 + t := by
  obtain ⟨t, ht⟩ : ∃ t, t = min (e.ediv 2) (Format.binary32.targetExponent
      ((totalExponent m e + 1).ediv 2)) := ⟨_, rfl⟩
  obtain ⟨k, hk⟩ : ∃ k : ℕ, k = (e - 2 * t).toNat := ⟨_, rfl⟩
  have hcore : sqrtCore Format.binary32 m e =
      ((m * 2 ^ k).sqrt, t, rootAccuracy (m * 2 ^ k)) := by
    rw [sqrtCore, ← ht, ← hk, Nat.shiftLeft_eq]
    rfl
  have hediv : ∀ a : ℤ, a.ediv 2 = a / 2 := fun _ => rfl
  simp only [Format.targetExponent, totalExponent, Format.mantissaBits, Format.minExponent,
    hediv] at ht
  norm_num at ht
  have hexp : e = k + t + t := by omega
  have hlog := log2_div_two_le (m * 2 ^ k) (by positivity)
  rw [log2_mul_two_pow hm.ne'] at hlog
  refine ⟨m * 2 ^ k, t, hcore, ?_, by omega, by omega⟩
  rw [hexp, zpow_add₀ (by norm_num), zpow_add₀ (by norm_num), zpow_natCast]
  push_cast
  ring

/-- A float has a root of 24 bits, which is far from the largest and the smallest floats. -/
theorem root_size {m n : ℕ} {e t : ℤ} (hlt : m < 2 ^ 24) (he : e ≤ 104)
    (hval : (n : ℚ) * (2 ^ t * 2 ^ t) = m * 2 ^ e) : (n.sqrt : ℚ) * 2 ^ t ≤ 2 ^ (64 : ℤ) := by
  have hm : (m : ℚ) * 2 ^ e ≤ 2 ^ (24 : ℤ) * 2 ^ (104 : ℤ) := by
    gcongr
    · exact_mod_cast hlt.le
    · norm_num
  have hroot : ((n.sqrt : ℚ) * 2 ^ t) ^ 2 ≤ (2 ^ (64 : ℤ)) ^ 2 := by
    have hsq : (n.sqrt : ℚ) ^ 2 ≤ n := by exact_mod_cast Nat.sqrt_le' n
    calc ((n.sqrt : ℚ) * 2 ^ t) ^ 2 = (n.sqrt : ℚ) ^ 2 * (2 ^ t * 2 ^ t) := by ring
      _ ≤ (n : ℚ) * (2 ^ t * 2 ^ t) := by gcongr
      _ ≤ 2 ^ (24 : ℤ) * 2 ^ (104 : ℤ) := hval.trans_le hm
      _ = (2 ^ (64 : ℤ)) ^ 2 := by norm_num
  exact (pow_le_pow_iff_left₀ (by positivity) (by positivity) two_ne_zero).mp hroot

/-- What is rounded for a root is less than the unit `u` away from it. -/
theorem root_error {root y q u : ℝ} (hunit : 2 ^ (23 : ℤ) * u ≤ root)
    (hsize : 2 ^ (-75 : ℤ) ≤ root) (hy : |y - root| ≤ u)
    (hq : |q - y| ≤ 2 ^ (-24 : ℤ) * |y| + 2 ^ (-150 : ℤ)) :
    |q - root| ≤ 2 ^ (-22 : ℤ) * root := by
  have hlarge : |y| ≤ root + u := by
    obtain ⟨hlo, hhi⟩ := abs_le.mp hy
    rw [abs_le]
    norm_num at hsize
    constructor <;> linarith
  have htri := abs_sub_le q y root
  norm_num at *
  linarith

/-- The root of a positive float, rounded: instead of the root, which need not be
rational, a rational number is rounded that lies in the same unit. -/
theorem sqrt_rounds {m : ℕ} {e : ℤ} (hm : 0 < m) (hlt : m < 2 ^ 24) (he : -149 ≤ e)
    (he' : e ≤ 104) : ∃ (n : ℕ) (t : ℤ) (y : ℚ),
      RoundsTo (y * 2 ^ t) (UnpackedFloat.sqrt Format.binary32 (.finite .positive m e hm)) ∧
      (n : ℚ) * (2 ^ t * 2 ^ t) = m * 2 ^ e ∧ (n.sqrt : ℚ) ≤ y ∧ y < n.sqrt + 1 ∧
      (2 : ℚ) ^ (23 : ℤ) * 2 ^ t ≤ n.sqrt * 2 ^ t ∧ (2 : ℚ) ^ (-75 : ℤ) ≤ n.sqrt * 2 ^ t := by
  obtain ⟨n, t, hcore, hval, hbits, hsize⟩ := sqrtCore_spec hm he
  obtain ⟨y, hy⟩ := holds_root n
  obtain ⟨hlo, hhi⟩ := holds_bounds hy
  have hpow : (0 : ℚ) < 2 ^ t := by positivity
  have hroot : n.sqrt ≠ 0 := by
    intro hzero
    rw [hzero, Nat.log2_zero] at hbits
    omega
  have hlog : (2 : ℚ) ^ n.sqrt.log2 ≤ n.sqrt := by exact_mod_cast Nat.log2_self_le hroot
  have hunit : (2 : ℚ) ^ (23 : ℤ) * 2 ^ t ≤ n.sqrt * 2 ^ t := by
    have hbits' : (2 : ℚ) ^ 23 ≤ 2 ^ n.sqrt.log2 := pow_le_pow_right₀ (by norm_num) hbits
    exact mul_le_mul_of_nonneg_right (by exact_mod_cast hbits'.trans hlog) hpow.le
  have hsmall : (2 : ℚ) ^ (-75 : ℤ) ≤ n.sqrt * 2 ^ t := by
    have hsize' : (2 : ℚ) ^ (-75 : ℤ) ≤ 2 ^ (n.sqrt.log2 + t) :=
      zpow_le_zpow_right₀ (by norm_num) hsize
    rw [zpow_add₀ (by norm_num), zpow_natCast] at hsize'
    exact hsize'.trans (mul_le_mul_of_nonneg_right hlog hpow.le)
  have hmax : y * 2 ^ t ≤ maxFinite := by
    have hlarge := root_size hlt he' hval
    have hone := mul_le_mul_of_nonneg_right hhi.le hpow.le
    rw [add_mul, one_mul] at hone
    apply le_maxFinite (show (66 : ℤ) ≤ 127 by norm_num)
    norm_num at hunit hlarge ⊢
    linarith
  refine ⟨n, t, y, ?_, hval, hlo, hhi, hunit, hsmall⟩
  rw [UnpackedFloat.sqrt, hcore]
  exact roundWithAccuracy_rounds .positive hy (le_targetExponent (Or.inl hbits)) hmax

/-- A positive float is a mantissa and an exponent. -/
theorem unpack_of_pos {a : Float32} {x : ℚ} (hx : toRat a = some x) (h0 : 0 < x) :
    ∃ m e hm, a.toModel.unpack = .finite .positive m e hm ∧ x = m * 2 ^ e := by
  rcases value_eq_some hx with ⟨s, -, rfl⟩ | ⟨s, m, e, hm, hu, rfl⟩
  · exact absurd h0 (lt_irrefl 0)
  · cases s with
    | positive => exact ⟨m, e, hm, hu, rfl⟩
    | negative =>
        have hneg : (0 : ℚ) ≤ m * 2 ^ e := by positivity
        exact absurd h0 (not_lt.mpr (neg_nonpos.mpr hneg))

/-- **Roots** are off by one part in `2 ^ 22` at most. -/
theorem toRat_sqrt {a : Float32} {x : ℚ} (hx : toRat a = some x) (h0 : 0 < x) :
    ∃ q, toRat a.sqrt = some q ∧ |(q : ℝ) - √(x : ℝ)| ≤ 2 ^ (-22 : ℤ) * √(x : ℝ) := by
  have hcanonical := canonical_unpack a.toModel
  obtain ⟨m, e, hm, hu, rfl⟩ := unpack_of_pos hx h0
  rw [hu] at hcanonical
  obtain ⟨hlt, he, he', -⟩ := hcanonical
  obtain ⟨n, t, y, hrounds, hval, hlo, hhi, hunit, hsmall⟩ := sqrt_rounds hm hlt he he'
  obtain ⟨q, hq, hoff⟩ := toRat_roundedOff hrounds
  have hsqrt : toRat a.sqrt = some q := by
    show toRat (.ofModel (.pack (UnpackedFloat.sqrt Format.binary32 a.toModel.unpack))) = some q
    rw [hu]
    exact hq
  -- the root itself is between the same two multiples of the unit
  have hx' : (((m : ℚ) * 2 ^ e : ℚ) : ℝ) = n * (2 ^ t * 2 ^ t) := by
    rw [← hval]
    push_cast
    rfl
  have hpow : (0 : ℝ) < 2 ^ t := by positivity
  have hexact : √(((m : ℚ) * 2 ^ e : ℚ) : ℝ) = √(n : ℝ) * 2 ^ t := by
    rw [hx', Real.sqrt_mul n.cast_nonneg, Real.sqrt_mul_self hpow.le]
  obtain ⟨hlo', hhi'⟩ := sqrt_between n
  have hbelow : (n.sqrt : ℝ) * 2 ^ t ≤ √(n : ℝ) * 2 ^ t := mul_le_mul_of_nonneg_right hlo' hpow.le
  have hdist : |(y : ℝ) * 2 ^ t - √(n : ℝ) * 2 ^ t| ≤ 2 ^ t := by
    have hlo'' : (n.sqrt : ℝ) ≤ y := by exact_mod_cast hlo
    have hhi'' : (y : ℝ) < n.sqrt + 1 := by exact_mod_cast hhi
    rw [← sub_mul, abs_mul, abs_of_pos hpow]
    exact mul_le_of_le_one_left hpow.le (abs_le.mpr ⟨by linarith, by linarith⟩)
  have hunit' := (Rat.cast_le (K := ℝ)).mpr hunit
  have hsmall' := (Rat.cast_le (K := ℝ)).mpr hsmall
  have hoff' := (Rat.cast_le (K := ℝ)).mpr hoff
  simp only [Rat.cast_mul, Rat.cast_zpow, Rat.cast_natCast, Rat.cast_ofNat, Rat.cast_abs,
    Rat.cast_sub, Rat.cast_add] at hunit' hsmall' hoff'
  refine ⟨q, hsqrt, ?_⟩
  rw [hexact]
  exact root_error (hunit'.trans hbelow) (hsmall'.trans hbelow) hdist hoff'

/-! ## The length of a plane vector -/

section

variable {x y u v w : ℚ}

/-- The sum of two rounded squares. -/
theorem squares_error (hsmall : 2 ^ (-100 : ℤ) ≤ x * x + y * y) (hu : RoundedOff (x * x) u)
    (hv : RoundedOff (y * y) v) :
    |u + v - (x * x + y * y)| ≤ 2 ^ (-23 : ℤ) * (x * x + y * y) := by
  unfold RoundedOff at hu hv
  rw [abs_of_nonneg (mul_self_nonneg x)] at hu
  rw [abs_of_nonneg (mul_self_nonneg y)] at hv
  have htri := abs_add_le (u - x * x) (v - y * y)
  rw [add_sub_add_comm]
  norm_num at *
  linarith

/-- The same sum, rounded in its turn. -/
theorem sum_of_squares_error (hsmall : 2 ^ (-100 : ℤ) ≤ x * x + y * y)
    (hsum : |u + v - (x * x + y * y)| ≤ 2 ^ (-23 : ℤ) * (x * x + y * y))
    (hw : RoundedOff (u + v) w) : |w - (x * x + y * y)| ≤ 2 ^ (-22 : ℤ) * (x * x + y * y) := by
  unfold RoundedOff at hw
  have habs := abs_sub_abs_le_abs_sub (u + v) (x * x + y * y)
  rw [abs_of_nonneg (add_nonneg (mul_self_nonneg x) (mul_self_nonneg y))] at habs
  have htri := abs_sub_le w (u + v) (x * x + y * y)
  norm_num at *
  linarith

/-- A relative error is halved by the root, and not made larger in any case. -/
theorem abs_sqrt_sub_le {s r ε : ℝ} (hs : 0 < s) (hr : 0 ≤ r) (h : |r - s| ≤ ε * s) :
    |√r - √s| ≤ ε * √s := by
  have hpos : 0 < √s := Real.sqrt_pos.mpr hs
  have hfactor : r - s = (√r - √s) * (√r + √s) := by
    rw [mul_comm, ← sq_sub_sq, Real.sq_sqrt hr, Real.sq_sqrt hs.le]
  have hroots : |√r - √s| * √s ≤ ε * √s * √s := by
    calc |√r - √s| * √s ≤ |√r - √s| * (√r + √s) := by
          gcongr
          exact le_add_of_nonneg_left (Real.sqrt_nonneg r)
      _ = |r - s| := by
          rw [hfactor, abs_mul, abs_of_nonneg (add_nonneg (Real.sqrt_nonneg r) hpos.le)]
      _ ≤ ε * s := h
      _ = ε * √s * √s := by rw [mul_assoc, Real.mul_self_sqrt hs.le]
  exact le_of_mul_le_mul_right hroots hpos

variable {a b : Float32}

/-- The squares of moderate numbers, not both small, are neither too large nor both
too small. -/
theorem squares_moderate (hsmall : 2 ^ (-50 : ℤ) ≤ |x| ∨ 2 ^ (-50 : ℤ) ≤ |y|)
    (hx62 : |x| ≤ 2 ^ (62 : ℤ)) (hy62 : |y| ≤ 2 ^ (62 : ℤ)) :
    2 ^ (-100 : ℤ) ≤ x * x + y * y ∧ x * x ≤ 2 ^ (124 : ℤ) ∧ y * y ≤ 2 ^ (124 : ℤ) := by
  have hle : ∀ {z : ℚ}, |z| ≤ 2 ^ (62 : ℤ) → z * z ≤ 2 ^ (124 : ℤ) := by
    intro z hz
    calc z * z = |z| * |z| := (abs_mul_abs_self z).symm
      _ ≤ 2 ^ (62 : ℤ) * 2 ^ (62 : ℤ) := by gcongr
      _ = 2 ^ (124 : ℤ) := by norm_num
  have hge : ∀ {z : ℚ}, 2 ^ (-50 : ℤ) ≤ |z| → 2 ^ (-100 : ℤ) ≤ z * z := by
    intro z hz
    calc (2 : ℚ) ^ (-100 : ℤ) = 2 ^ (-50 : ℤ) * 2 ^ (-50 : ℤ) := by norm_num
      _ ≤ |z| * |z| := by gcongr
      _ = z * z := abs_mul_abs_self z
  refine ⟨?_, hle hx62, hle hy62⟩
  rcases hsmall with h | h
  · exact le_add_of_le_of_nonneg (hge h) (mul_self_nonneg y)
  · exact le_add_of_nonneg_of_le (mul_self_nonneg x) (hge h)

/-- The square of a vector of moderate size in one direction at least: nothing
overflows, and not everything vanishes. -/
theorem toRat_add_squares (hx : toRat a = some x) (hy : toRat b = some y)
    (hsmall : 2 ^ (-50 : ℤ) ≤ |x| ∨ 2 ^ (-50 : ℤ) ≤ |y|) (hx62 : |x| ≤ 2 ^ (62 : ℤ))
    (hy62 : |y| ≤ 2 ^ (62 : ℤ)) : ∃ w, toRat (a * a + b * b) = some w ∧ 0 < w ∧
      0 < x * x + y * y ∧ |w - (x * x + y * y)| ≤ 2 ^ (-22 : ℤ) * (x * x + y * y) := by
  obtain ⟨hlower, hx124, hy124⟩ := squares_moderate hsmall hx62 hy62
  have hx0 := mul_self_nonneg x
  have hy0 := mul_self_nonneg y
  have hfinite : ∀ {z : ℚ}, |z| ≤ 2 ^ (126 : ℤ) → |z| ≤ maxFinite :=
    fun h => le_maxFinite le_rfl (h.trans_lt (by norm_num))
  have h124 : (2 : ℚ) ^ (124 : ℤ) ≤ 2 ^ (126 : ℤ) := by norm_num
  obtain ⟨u, hu, hu'⟩ := toRat_mul_roundedOff hx hx
    (hfinite ((abs_of_nonneg hx0).trans_le (hx124.trans h124)))
  obtain ⟨v, hv, hv'⟩ := toRat_mul_roundedOff hy hy
    (hfinite ((abs_of_nonneg hy0).trans_le (hy124.trans h124)))
  have hsum := squares_error hlower hu' hv'
  have hupper : |u + v| ≤ 2 ^ (126 : ℤ) := by
    have habs := abs_sub_abs_le_abs_sub (u + v) (x * x + y * y)
    rw [abs_of_nonneg (add_nonneg hx0 hy0)] at habs
    norm_num at *
    linarith
  obtain ⟨w, hw, hw'⟩ := toRat_add_roundedOff hu hv (hfinite hupper)
  have herr := sum_of_squares_error hlower hsum hw'
  have hpos : (0 : ℚ) < x * x + y * y := lt_of_lt_of_le (by norm_num) hlower
  refine ⟨w, hw, ?_, hpos, herr⟩
  have hlo := (abs_le.mp herr).1
  norm_num at hlo
  linarith

/-- **The length of a vector**, rounded at every step. -/
theorem toRat_length (hx : toRat a = some x) (hy : toRat b = some y)
    (hsmall : 2 ^ (-50 : ℤ) ≤ |x| ∨ 2 ^ (-50 : ℤ) ≤ |y|) (hx62 : |x| ≤ 2 ^ (62 : ℤ))
    (hy62 : |y| ≤ 2 ^ (62 : ℤ)) : ∃ q, toRat (a * a + b * b).sqrt = some q ∧
      0 < √((x : ℝ) * x + (y : ℝ) * y) ∧
      |(q : ℝ) - √((x : ℝ) * x + (y : ℝ) * y)| ≤
        2 ^ (-20 : ℤ) * √((x : ℝ) * x + (y : ℝ) * y) := by
  obtain ⟨w, hw, hwpos, hpos, herr⟩ := toRat_add_squares hx hy hsmall hx62 hy62
  obtain ⟨q, hq, hq'⟩ := toRat_sqrt hw hwpos
  have hpos' : (0 : ℝ) < (x : ℝ) * x + (y : ℝ) * y := by exact_mod_cast hpos
  refine ⟨q, hq, Real.sqrt_pos.mpr hpos', ?_⟩
  -- the root of the rounded square, and the round-off of the root itself
  have herr' := (Rat.cast_le (K := ℝ)).mpr herr
  simp only [Rat.cast_abs, Rat.cast_sub, Rat.cast_add, Rat.cast_mul, Rat.cast_zpow,
    Rat.cast_ofNat] at herr'
  have hroot := abs_sqrt_sub_le hpos' (by exact_mod_cast hwpos.le) herr'
  have hupper := (abs_le.mp hroot).2
  have htri := abs_sub_le (q : ℝ) (√(w : ℝ)) (√((x : ℝ) * x + (y : ℝ) * y))
  have hlength := Real.sqrt_pos.mpr hpos'
  norm_num at hq' hroot hupper ⊢
  linarith

end

/-! ## Vectors that are too long -/

/-- What has too large an exponent is packed as infinity. -/
theorem unpack_pack_overflow (s : Sign) {m : ℕ} {e : ℤ} (hm : 0 < m) (he : 105 ≤ e) :
    (Float32.Model.pack (.finite s m e hm)).unpack = .infinity s := by
  show UnpackedFloat.unpack Format.binary32 (UnpackedFloat.pack Format.binary32 _) = _
  have hbias : (e + Format.binary32.exponentBias + Format.binary32.mantissaBitsWithoutImplicit
      ).toNat = (e + 150).toNat := by
    show (e + 127 + 23).toNat = _
    omega
  rw [UnpackedFloat.pack]
  simp only [hbias]
  rw [if_pos (by show 2 ^ 8 ≤ _; omega)]
  cases s <;> rfl

/-- **Overflow.** Rounding brings nothing of `2 ^ 128` or more back into the format. -/
theorem roundWithAccuracy_overflow (s : Sign) {m : ℕ} {e : ℤ} (hbits : 23 ≤ m.log2)
    (hlarge : 128 ≤ m.log2 + e) :
    (Float32.Model.pack (roundWithAccuracy Format.binary32 s m e .exact)).unpack =
      .infinity s := by
  obtain ⟨k, hk⟩ : ∃ k, m.log2 = 23 + k := ⟨m.log2 - 23, by omega⟩
  have htarget : Format.binary32.targetExponent (totalExponent m e) = e + k := by
    rw [targetExponent_eq]
    omega
  obtain ⟨em, hem⟩ :
      ∃ em, em = ExtendedMantissa.ofMantissaAndAccuracy m .exact >>> k := ⟨_, rfl⟩
  have hfirst : shiftToTargetExponent Format.binary32 m e .exact = (em, e + k) := by
    have hk' : (e + k - e).toNat = k := by omega
    rw [shiftToTargetExponent, htarget, shiftToExponent, hk', hem]
  have hholds : Holds em ((m : ℚ) / 2 ^ k) := by
    rw [hem]
    exact (holds_exact m).shiftRight k
  obtain ⟨hr, hnorm⟩ := rounded_bounds le_rfl (lt_add_one (m : ℚ)) hholds hk.le
  have hpos := hnorm hk
  rw [roundWithAccuracy, hfirst]
  simp only [shift_rounded hr (by omega : -149 ≤ e + k)]
  by_cases hlt : em.roundedMantissa < 2 ^ 24
  · simp only [if_pos hlt]
    rw [dif_neg (by omega)]
    exact unpack_pack_overflow s _ (by omega)
  · simp only [if_neg hlt]
    exact unpack_pack_overflow s _ (by omega)

section

variable {a b : Float32} {x y : ℚ}

/-- The square of a float of `2 ^ 64` or more. -/
theorem mul_self_overflow (hx : toRat a = some x) (hlarge : 2 ^ (64 : ℤ) ≤ |x|) :
    (a * a).toModel.unpack = .infinity .positive := by
  have hcanonical := canonical_unpack a.toModel
  show (Float32.Model.pack (UnpackedFloat.mul Format.binary32 a.toModel.unpack
    a.toModel.unpack)).unpack = .infinity .positive
  rcases value_eq_some hx with ⟨s, -, rfl⟩ | ⟨s, m, e, hm, hu, rfl⟩
  · rw [abs_zero] at hlarge
    exact absurd hlarge (by norm_num)
  · rw [hu] at hcanonical ⊢
    obtain ⟨-, -, -, hn⟩ := hcanonical
    rw [abs_signed s (by positivity)] at hlarge
    have hlog : 64 < (m.log2 : ℤ) + 1 + e := by
      have hlt : (m : ℚ) < 2 ^ ((m.log2 : ℤ) + 1) := by exact_mod_cast Nat.lt_log2_self
      have hpow := mul_lt_mul_of_pos_right hlt (by positivity : (0 : ℚ) < 2 ^ e)
      rw [← zpow_add₀ (by norm_num)] at hpow
      exact (zpow_lt_zpow_iff_right₀ (by norm_num : (1 : ℚ) < 2)).mp (hlarge.trans_lt hpow)
    have hbits : 23 ≤ m.log2 := by
      rcases hn with hn | rfl
      · exact (Nat.le_log2 hm.ne').mpr hn
      · omega
    have hsquare : 2 * m.log2 ≤ (m * m).log2 := by
      rw [Nat.le_log2 (Nat.mul_pos hm hm).ne', two_mul, pow_add]
      exact Nat.mul_le_mul (Nat.log2_self_le hm.ne') (Nat.log2_self_le hm.ne')
    have hsign : s * s = .positive := by cases s <;> rfl
    rw [UnpackedFloat.mul, hsign]
    exact roundWithAccuracy_overflow .positive (by omega) (by omega)

/-- Nothing that is added to infinity brings it back, short of the other infinity. -/
theorem add_infinity {u v : UnpackedFloat} (hu : Nonnegative u) (hv : Nonnegative v)
    (h : u = .infinity .positive ∨ v = .infinity .positive) :
    UnpackedFloat.add Format.binary32 u v = .infinity .positive := by
  rcases h with rfl | rfl
  · cases v with
    | notANumber => exact hv.elim
    | infinity s =>
        obtain rfl : s = .positive := hv
        rfl
    | zero s => rfl
    | finite s m e hm => rfl
  · cases u with
    | notANumber => exact hu.elim
    | infinity s =>
        obtain rfl : s = .positive := hu
        rfl
    | zero s => rfl
    | finite s m e hm => rfl

/-- **The length of a vector that is too long** for its square is infinite. -/
theorem length_overflow (hx : toRat a = some x) (hy : toRat b = some y)
    (hlarge : 2 ^ (64 : ℤ) ≤ |x| ∨ 2 ^ (64 : ℤ) ≤ |y|) :
    (a * a + b * b).sqrt.toModel.unpack = .infinity .positive := by
  have hnonneg : ∀ {c : Float32} {z : ℚ}, toRat c = some z →
      Nonnegative (c * c).toModel.unpack := fun hz =>
    nonnegative_pack (mul_self_nonnegative (not_isNaN_of_toRat hz))
  have hsum : (a * a + b * b).toModel.unpack = .infinity .positive := by
    show (Float32.Model.pack (UnpackedFloat.add Format.binary32 (a * a).toModel.unpack
      (b * b).toModel.unpack)).unpack = .infinity .positive
    rw [add_infinity (hnonneg hx) (hnonneg hy)
      (hlarge.imp (mul_self_overflow hx) (mul_self_overflow hy))]
    rfl
  show (Float32.Model.pack (UnpackedFloat.sqrt Format.binary32
    (a * a + b * b).toModel.unpack)).unpack = .infinity .positive
  rw [hsum]
  rfl

end

end CmsProxy.Binary32
