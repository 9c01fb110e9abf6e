/-
binary32 arithmetic as rounded rational arithmetic.

Lean's `Float32` has a logical model: a bit pattern is unpacked into sign,
mantissa and exponent, the operation is done on these with a round bit and a
sticky bit, and the result is packed again. A program that only compares,
adds and scales floats needs less than that, and this file derives it:

* a finite `Float32` has a rational value (`toRat`), and comparing two of them
  is comparing the values (`lt_iff`, `le_iff`);
* the sum, difference, product and quotient of two finite values is the exact
  one up to half a unit in the last place, on the same side of zero (`Near`),
  as long as the exact result stays below `2 ^ N`, `N ≤ 127`; underneath, rounding
  is described by the grid it lands on and by its error (`RoundsTo`);
* NaN goes through every operation, and no comparison with NaN holds.

`Within lo hi a` puts the last two together: `a` is NaN, or a number between
`lo` and `hi`. It is the form in which a bound travels through a computation
whose inputs nobody checks.
-/
import Mathlib

set_option autoImplicit false

namespace CmsProxy.Binary32

open Float.Model Float.Model.UnpackedFloat

/-! ## A mantissa with its round and sticky bit -/

/-- The exact quantity an extended mantissa stands for lies where its two extra
bits say. -/
def Holds (em : ExtendedMantissa) (x : ℚ) : Prop :=
  match em.accuracy with
  | .exact => x = em.mantissa
  | .inexact .lt => (em.mantissa : ℚ) < x ∧ x < em.mantissa + 1 / 2
  | .inexact .eq => x = em.mantissa + 1 / 2
  | .inexact .gt => (em.mantissa : ℚ) + 1 / 2 < x ∧ x < em.mantissa + 1

/-- The quantity is never below the mantissa, and less than one above it. -/
theorem Holds.bounds {em : ExtendedMantissa} {x : ℚ} (h : Holds em x) :
    (em.mantissa : ℚ) ≤ x ∧ x < em.mantissa + 1 := by
  obtain ⟨m, r, s⟩ := em
  cases r <;> cases s <;> simp only [Holds, ExtendedMantissa.accuracy] at h <;>
    constructor <;> linarith

/-- Rounding moves the quantity by half a unit at most. -/
theorem Holds.half_unit {em : ExtendedMantissa} {x : ℚ} (h : Holds em x) :
    |(em.roundedMantissa : ℚ) - x| ≤ 1 / 2 := by
  obtain ⟨m, r, s⟩ := em
  rw [abs_le]
  cases r <;> cases s <;>
    simp only [Holds, ExtendedMantissa.accuracy, ExtendedMantissa.roundedMantissa,
      Accuracy.roundToNearestEven] at h ⊢
  · constructor <;> linarith
  · constructor <;> linarith
  · -- a tie goes to the even neighbour, which is `m` or `m + 1`
    rcases Nat.mod_two_eq_zero_or_one m with hm | hm <;> rw [hm] <;> push_cast <;>
      constructor <;> linarith
  · push_cast
    constructor <;> linarith

/-- Halving the quantity is shifting the mantissa: the lowest bit becomes the
round bit, and the old round bit joins the sticky bit. -/
theorem Holds.shiftRightOne {em : ExtendedMantissa} {x : ℚ} (h : Holds em x) :
    Holds em.shiftRightOne (x / 2) := by
  obtain ⟨m, r, s⟩ := em
  have hm : (m : ℚ) = 2 * ((m / 2 : ℕ) : ℚ) + ((m % 2 : ℕ) : ℚ) := by
    exact_mod_cast (Nat.div_add_mod m 2).symm
  -- the lowest, the round and the sticky bit decide; each of the eight cases is linear
  rcases Nat.mod_two_eq_zero_or_one m with hodd | hodd <;> rw [hodd] at hm <;>
    push_cast at hm <;> cases r <;> cases s <;>
    simp only [Holds, ExtendedMantissa.accuracy, ExtendedMantissa.shiftRightOne, hodd,
      Bool.or_false, Bool.or_true, bne_self_eq_false, Nat.reduceBNe] at h ⊢ <;>
    first | linarith | (constructor <;> linarith)

theorem Holds.shiftRight {em : ExtendedMantissa} {x : ℚ} (h : Holds em x) (k : ℕ) :
    Holds (em >>> k) (x / 2 ^ k) := by
  induction k with
  | zero =>
      rw [pow_zero, div_one]
      exact h
  | succ k ih =>
      have hstep := ih.shiftRightOne
      rw [div_div, ← pow_succ] at hstep
      exact hstep

/-- The mantissa a quantity is represented by is its integer part. -/
theorem holds_bounds {m : ℕ} {acc : Accuracy} {y : ℚ}
    (hy : Holds (ExtendedMantissa.ofMantissaAndAccuracy m acc) y) : (m : ℚ) ≤ y ∧ y < m + 1 := by
  have hmant : (ExtendedMantissa.ofMantissaAndAccuracy m acc).mantissa = m := by
    rcases acc with _ | _ | _ | _ <;> rfl
  have h := hy.bounds
  rwa [hmant] at h

theorem holds_exact (m : ℕ) :
    Holds (ExtendedMantissa.ofMantissaAndAccuracy m .exact) (m : ℚ) := rfl

/-- The remainder of a division says on which side of one half the quotient lies. -/
theorem holds_fraction (m d : ℕ) (hd : 0 < d) :
    Holds (ExtendedMantissa.ofMantissaAndAccuracy (m / d) (accuracyOfFraction (m % d) d))
      ((m : ℚ) / d) := by
  have hd' : (0 : ℚ) < d := by exact_mod_cast hd
  have hmod : m % d < d := Nat.mod_lt m hd
  have hmod' : ((m % d : ℕ) : ℚ) < d := by exact_mod_cast hmod
  have hm : (m : ℚ) = d * ((m / d : ℕ) : ℚ) + ((m % d : ℕ) : ℚ) := by
    exact_mod_cast (Nat.div_add_mod m d).symm
  have hq : (m : ℚ) / d = ((m / d : ℕ) : ℚ) + ((m % d : ℕ) : ℚ) / d := by
    rw [hm]
    field_simp
  rw [hq, accuracyOfFraction]
  by_cases h0 : m % d = 0
  · rw [if_pos h0, h0]
    simp only [Nat.cast_zero, zero_div, add_zero]
    exact holds_exact _
  · rw [if_neg h0]
    have hpos : (0 : ℚ) < ((m % d : ℕ) : ℚ) / d := by
      have : (0 : ℚ) < ((m % d : ℕ) : ℚ) := by exact_mod_cast Nat.pos_of_ne_zero h0
      positivity
    have hlt1 : ((m % d : ℕ) : ℚ) / d < 1 := by rwa [div_lt_one hd']
    -- below, at or above one half
    rcases lt_trichotomy (2 * (m % d)) d with hlt | heq | hgt
    · rw [Nat.compare_eq_lt.mpr hlt]
      have hhalf : ((m % d : ℕ) : ℚ) / d < 1 / 2 := by
        rw [div_lt_div_iff₀ hd' (by norm_num)]
        have : ((2 * (m % d) : ℕ) : ℚ) < d := by exact_mod_cast hlt
        push_cast at this
        linarith
      exact ⟨lt_add_of_pos_right _ hpos, (add_lt_add_iff_left _).mpr hhalf⟩
    · rw [Nat.compare_eq_eq.mpr heq]
      have hhalf : ((m % d : ℕ) : ℚ) / d = 1 / 2 := by
        rw [div_eq_div_iff hd'.ne' (by norm_num)]
        have : ((2 * (m % d) : ℕ) : ℚ) = d := by exact_mod_cast heq
        push_cast at this
        linarith
      rw [hhalf]
      rfl
    · rw [Nat.compare_eq_gt.mpr hgt]
      have hhalf : (1 : ℚ) / 2 < ((m % d : ℕ) : ℚ) / d := by
        rw [div_lt_div_iff₀ (by norm_num) hd']
        have : (d : ℚ) < ((2 * (m % d) : ℕ) : ℚ) := by exact_mod_cast hgt
        push_cast at this
        linarith
      exact ⟨(add_lt_add_iff_left _).mpr hhalf, (add_lt_add_iff_left _).mpr hlt1⟩

/-! ## Values and canonical forms -/

/-- A magnitude with its sign. -/
def signed : Sign → ℚ → ℚ
  | .positive, x => x
  | .negative, x => -x

/-- The rational value of a finite unpacked float. -/
def value : UnpackedFloat → Option ℚ
  | .zero _ => some 0
  | .finite s m e _ => some (signed s (m * (2 : ℚ) ^ e))
  | _ => none

/-- What unpacking a binary32 pattern can give: a mantissa of 24 bits whose top
bit is set, unless the exponent is already the smallest. -/
def Canonical : UnpackedFloat → Prop
  | .finite _ m e _ => m < 2 ^ 24 ∧ -149 ≤ e ∧ e ≤ 104 ∧ (2 ^ 23 ≤ m ∨ e = -149)
  | _ => True

theorem targetExponent_eq (m : ℕ) (e : ℤ) :
    Format.binary32.targetExponent (totalExponent m e) = max ((m.log2 : ℤ) + e - 23) (-149) := by
  simp only [Format.targetExponent, totalExponent, Format.mantissaBits, Format.minExponent]
  norm_num
  ring_nf

/-- A mantissa with a high bit or the smallest exponent is shifted right only. -/
theorem le_targetExponent {m : ℕ} {e : ℤ} (h : 23 ≤ m.log2 ∨ e ≤ -149) :
    e ≤ Format.binary32.targetExponent (totalExponent m e) := by
  rw [targetExponent_eq]
  omega

/-! ## Rounding -/

/-- The second shift of the rounding: it only acts when rounding up has carried
into a 25th bit, and then it is exact. -/
theorem shift_rounded {r : ℕ} {t : ℤ} (hr : r ≤ 2 ^ 24) (ht : -149 ≤ t) :
    shiftToTargetExponent Format.binary32 r t .exact
      = if r < 2 ^ 24 then (⟨r, false, false⟩, t) else (⟨2 ^ 23, false, false⟩, t + 1) := by
  have key : ∀ k : ℕ, (Format.binary32.targetExponent (totalExponent r t) - t).toNat = k →
      shiftToTargetExponent Format.binary32 r t .exact
        = ((⟨r, false, false⟩ : ExtendedMantissa) >>> k, t + k) := by
    rintro k rfl
    rfl
  rw [targetExponent_eq] at key
  split_ifs with hlt
  · -- 24 bits or fewer: the exponent is right already, and nothing is shifted
    have hlog : r.log2 ≤ 23 := by
      by_cases h0 : r = 0
      · rw [h0]
        decide
      · have := (Nat.log2_lt h0).mpr hlt
        omega
    rw [key 0 (by omega), Nat.cast_zero, add_zero]
    rfl
  · -- the carry made it a power of two, so the bit shifted out is 0
    have h24 : r = 2 ^ 24 := by omega
    subst h24
    rw [Nat.log2_two_pow] at key
    rw [key 1 (by omega)]
    rfl

/-- The first shift leaves a mantissa that rounds to 24 bits or just above, and
to 24 bits exactly unless the exponent is the smallest. -/
theorem rounded_bounds {m k : ℕ} {em : ExtendedMantissa} {y : ℚ} (hm : (m : ℚ) ≤ y)
    (hm' : y < m + 1) (hem : Holds em (y / 2 ^ k)) (hk : m.log2 ≤ 23 + k) :
    em.roundedMantissa ≤ 2 ^ 24 ∧ (m.log2 = 23 + k → 2 ^ 23 ≤ em.roundedMantissa) := by
  obtain ⟨hlo, hhi⟩ := hem.bounds
  have hhalf := abs_le.mp hem.half_unit
  have hpow : (0 : ℚ) < 2 ^ k := by positivity
  constructor
  · -- upper bound: the shift has left at most 24 bits
    have hlt : m + 1 ≤ 2 ^ 24 * 2 ^ k := by
      have h1 : m < 2 ^ (m.log2 + 1) := Nat.lt_log2_self
      have h2 : 2 ^ (m.log2 + 1) ≤ 2 ^ (24 + k) := Nat.pow_le_pow_right (by norm_num) (by omega)
      rw [pow_add 2 24 k] at h2
      omega
    have hlt' : (m : ℚ) + 1 ≤ 2 ^ 24 * 2 ^ k := by exact_mod_cast hlt
    have hx : y / 2 ^ k < 2 ^ 24 := by
      rw [div_lt_iff₀ hpow]
      linarith
    have hmant : em.mantissa < 2 ^ 24 := by
      have : (em.mantissa : ℚ) < 2 ^ 24 := lt_of_le_of_lt hlo hx
      exact_mod_cast this
    have hmant' : (em.mantissa : ℚ) ≤ 2 ^ 24 - 1 := by
      have : (em.mantissa : ℚ) + 1 ≤ 2 ^ 24 := by exact_mod_cast hmant
      linarith
    have hr : (em.roundedMantissa : ℚ) < 2 ^ 24 + 1 := by linarith [hhalf.2]
    have hr' : em.roundedMantissa < 2 ^ 24 + 1 := by exact_mod_cast hr
    omega
  · -- lower bound: with all its bits the mantissa has the 24th set
    intro hlog
    have h0 : m ≠ 0 := by
      rintro rfl
      rw [Nat.log2_zero] at hlog
      omega
    have hge : 2 ^ 23 * 2 ^ k ≤ m := by
      have := Nat.log2_self_le h0
      rwa [hlog, pow_add] at this
    have hge' : (2 : ℚ) ^ 23 * 2 ^ k ≤ m := by exact_mod_cast hge
    have hx : (2 : ℚ) ^ 23 ≤ y / 2 ^ k := by
      rw [le_div_iff₀ hpow]
      linarith
    have hr : (2 : ℚ) ^ 23 < em.roundedMantissa + 1 := by linarith [hhalf.1]
    have hr' : 2 ^ 23 < em.roundedMantissa + 1 := by exact_mod_cast hr
    omega

/-- The largest finite float. -/
def maxFinite : ℚ := (2 ^ 24 - 1) * 2 ^ 104

/-- `q` is the non-negative `x` rounded to a multiple of `2 ^ t`, the unit in the last
place of numbers of its size. -/
structure OnGrid (t : ℤ) (x q : ℚ) : Prop where
  least : -149 ≤ t
  unit : t = -149 ∨ 2 ^ (t + 23) ≤ x
  multiple : ∃ r : ℕ, q = r * 2 ^ t
  error : |q - x| ≤ 2 ^ t / 2

/-- An unpacked float that is `x`, rounded to the unit in the last place. -/
def RoundsTo (x : ℚ) (u : UnpackedFloat) : Prop :=
  Canonical u ∧ ∃ s t m q, x = signed s m ∧ 0 ≤ m ∧ value u = some (signed s q) ∧ OnGrid t m q

/-- The target exponent is the one of the last place. -/
theorem targetExponent_unit {m : ℕ} {e : ℤ} {y : ℚ} (hm : (m : ℚ) ≤ y)
    (he : e ≤ Format.binary32.targetExponent (totalExponent m e)) :
    Format.binary32.targetExponent (totalExponent m e) = -149 ∨
      2 ^ (Format.binary32.targetExponent (totalExponent m e) + 23) ≤ y * 2 ^ e := by
  rw [targetExponent_eq] at he ⊢
  by_cases h149 : (m.log2 : ℤ) + e - 23 ≤ -149
  · exact Or.inl (max_eq_right h149)
  · rw [max_eq_left (not_le.mp h149).le] at he ⊢
    have hm0 : m ≠ 0 := by
      rintro rfl
      rw [Nat.log2_zero] at he
      omega
    have hlog : (2 : ℚ) ^ m.log2 ≤ m := by exact_mod_cast Nat.log2_self_le hm0
    right
    rw [sub_add_cancel, zpow_add₀ (by norm_num), zpow_natCast]
    gcongr
    exact hlog.trans hm

/-- The unit in the last place is at most that of the largest float. -/
theorem unit_le_of_le_maxFinite {t : ℤ} {x : ℚ} (hunit : t = -149 ∨ 2 ^ (t + 23) ≤ x)
    (hmax : x ≤ maxFinite) : t ≤ 104 := by
  by_contra hgt
  have hlarge : (2 : ℚ) ^ (128 : ℤ) ≤ 2 ^ (t + 23) := zpow_le_zpow_right₀ (by norm_num) (by omega)
  have hfinite := (hunit.resolve_left (by omega)).trans hmax
  rw [maxFinite] at hfinite
  norm_num at hlarge hfinite
  linarith

/-- Nothing is carried out of the mantissa of the largest float. -/
theorem rounded_lt_of_le_maxFinite {em : ExtendedMantissa} {y : ℚ} (hy : Holds em y)
    (hmax : y * 2 ^ (104 : ℤ) ≤ maxFinite) : em.roundedMantissa < 2 ^ 24 := by
  rw [maxFinite] at hmax
  have hmant : y ≤ 2 ^ 24 - 1 :=
    le_of_mul_le_mul_right (by exact_mod_cast hmax) (by positivity : (0 : ℚ) < 2 ^ (104 : ℤ))
  have hhalf := (abs_le.mp hy.half_unit).2
  have hlt : (em.roundedMantissa : ℚ) < 2 ^ 24 := by linarith
  exact_mod_cast hlt

/-- What is packed behind the first shift: the rounded mantissa, as a float. -/
theorem roundWithAccuracy_of_shift (s : Sign) {m : ℕ} {e t : ℤ} {acc : Accuracy}
    {em : ExtendedMantissa} (hfirst : shiftToTargetExponent Format.binary32 m e acc = (em, t))
    (hr : em.roundedMantissa ≤ 2 ^ 24) (ht : -149 ≤ t) (ht' : t ≤ 104)
    (hcarry : em.roundedMantissa < 2 ^ 24 ∨ t ≤ 103)
    (hnorm : 2 ^ 23 ≤ em.roundedMantissa ∨ t = -149) :
    Canonical (roundWithAccuracy Format.binary32 s m e acc) ∧
      value (roundWithAccuracy Format.binary32 s m e acc) =
        some (signed s (em.roundedMantissa * 2 ^ t)) := by
  rw [roundWithAccuracy, hfirst]
  simp only [shift_rounded hr ht]
  by_cases hlt : em.roundedMantissa < 2 ^ 24
  · simp only [if_pos hlt]
    split_ifs with h0
    · refine ⟨trivial, ?_⟩
      rw [h0, Nat.cast_zero, zero_mul]
      cases s <;> simp only [value, signed, neg_zero]
    · exact ⟨⟨hlt, ht, ht', hnorm⟩, rfl⟩
  · -- rounding up has carried: the same value, one exponent higher
    have h24 : em.roundedMantissa = 2 ^ 24 := le_antisymm hr (not_lt.mp hlt)
    simp only [if_neg hlt]
    refine ⟨⟨by norm_num, by omega, by omega, Or.inl le_rfl⟩, ?_⟩
    show some (signed s (((2 ^ 23 : ℕ) : ℚ) * 2 ^ (t + 1))) = _
    rw [h24, zpow_add₀ (by norm_num)]
    congr 2
    push_cast
    ring

/-- **Rounding.** A quantity that is no larger than the largest float is rounded to the
unit in the last place. -/
theorem roundWithAccuracy_rounds (s : Sign) {m : ℕ} {e : ℤ} {acc : Accuracy} {y : ℚ}
    (hy : Holds (ExtendedMantissa.ofMantissaAndAccuracy m acc) y)
    (he : e ≤ Format.binary32.targetExponent (totalExponent m e)) (hmax : y * 2 ^ e ≤ maxFinite) :
    RoundsTo (signed s (y * 2 ^ e)) (roundWithAccuracy Format.binary32 s m e acc) := by
  obtain ⟨hm, hm'⟩ := holds_bounds hy
  have hunit := targetExponent_unit hm he
  have hy0 : (0 : ℚ) ≤ y * 2 ^ e := mul_nonneg ((Nat.cast_nonneg m).trans hm) (by positivity)
  obtain ⟨t, ht⟩ : ∃ t, t = Format.binary32.targetExponent (totalExponent m e) := ⟨_, rfl⟩
  rw [← ht] at he hunit
  obtain ⟨k, hk⟩ : ∃ k : ℕ, t = e + k := ⟨(t - e).toNat, by omega⟩
  have htarget := ht
  rw [targetExponent_eq] at htarget
  obtain ⟨em, hem⟩ : ∃ em, em = ExtendedMantissa.ofMantissaAndAccuracy m acc >>> k := ⟨_, rfl⟩
  have hfirst : shiftToTargetExponent Format.binary32 m e acc = (em, t) := by
    have hk' : (t - e).toNat = k := by omega
    rw [shiftToTargetExponent, ← ht, shiftToExponent, hk', hem, hk]
  have hholds : Holds em (y / 2 ^ k) := by
    rw [hem]
    exact hy.shiftRight k
  obtain ⟨hr, hnorm⟩ := rounded_bounds hm hm' hholds (by omega)
  -- the shift stops at 24 bits, or at the smallest exponent
  have hnorm' : 2 ^ 23 ≤ em.roundedMantissa ∨ t = -149 := by
    by_cases h149 : t = -149
    · exact Or.inr h149
    · exact Or.inl (hnorm (by omega))
  have hy' : y * 2 ^ e = y / 2 ^ k * 2 ^ t := by
    rw [hk, zpow_add₀ (by norm_num), zpow_natCast]
    field_simp
  have ht104 := unit_le_of_le_maxFinite hunit hmax
  have hcarry : em.roundedMantissa < 2 ^ 24 ∨ t ≤ 103 := by
    by_cases ht103 : t ≤ 103
    · exact Or.inr ht103
    · left
      obtain rfl : t = 104 := by omega
      rw [hy'] at hmax
      exact rounded_lt_of_le_maxFinite hholds hmax
  -- half a unit of the shifted mantissa, scaled back
  have herr : |(em.roundedMantissa : ℚ) * 2 ^ t - y * 2 ^ e| ≤ 2 ^ t / 2 := by
    have hpos : (0 : ℚ) < 2 ^ t := by positivity
    rw [hy', ← sub_mul, abs_mul, abs_of_pos hpos]
    have := mul_le_mul_of_nonneg_right hholds.half_unit hpos.le
    linarith
  obtain ⟨hcanonical, hvalue⟩ :=
    roundWithAccuracy_of_shift s hfirst hr (by omega) ht104 hcarry hnorm'
  exact ⟨hcanonical, s, _, _, _, rfl, hy0, hvalue, by omega, hunit, ⟨_, rfl⟩, herr⟩

/-- A float is itself, rounded. -/
theorem rounds_self {u : UnpackedFloat} {x : ℚ} (hu : Canonical u) (hx : value u = some x) :
    RoundsTo x u := by
  refine ⟨hu, ?_⟩
  cases u with
  | notANumber => exact nomatch hx
  | infinity s => exact nomatch hx
  | zero s =>
      obtain rfl := Option.some.inj hx
      exact ⟨.positive, -149, 0, 0, rfl, le_rfl, rfl, le_rfl, Or.inl rfl,
        ⟨0, by rw [Nat.cast_zero, zero_mul]⟩, by norm_num⟩
  | finite s m e hm =>
      obtain rfl := Option.some.inj hx
      obtain ⟨-, he, -, hn⟩ := hu
      refine ⟨s, e, m * 2 ^ e, m * 2 ^ e, rfl, by positivity, rfl, he, ?_, ⟨m, rfl⟩, ?_⟩
      · rcases hn with hn | hn
        · right
          have hn' : (2 : ℚ) ^ 23 ≤ m := by exact_mod_cast hn
          rw [add_comm, zpow_add₀ (by norm_num)]
          gcongr
          exact_mod_cast hn'
        · exact Or.inl hn
      · rw [sub_self, abs_zero]
        positivity

theorem rounds_zero (s : Sign) : RoundsTo 0 (.zero s) := rounds_self trivial rfl

/-- `q` is `x` rounded, for an `x` below `2 ^ N`: half a unit away at most, and
not on the other side of zero. -/
structure Near (N : ℤ) (x q : ℚ) : Prop where
  error : |q - x| ≤ 2 ^ (N - 25)
  nonneg : 0 ≤ x → 0 ≤ q
  nonpos : x ≤ 0 → q ≤ 0

/-- An unpacked float that is a rounded `x`. -/
def Rounded (N : ℤ) (x : ℚ) (u : UnpackedFloat) : Prop :=
  Canonical u ∧ ∃ q, value u = some q ∧ Near N x q

theorem OnGrid.nonneg {t : ℤ} {x q : ℚ} (h : OnGrid t x q) : 0 ≤ q := by
  obtain ⟨r, rfl⟩ := h.multiple
  positivity

/-- Zero is not rounded. -/
theorem OnGrid.eq_zero {t : ℤ} {q : ℚ} (h : OnGrid t 0 q) : q = 0 := by
  obtain ⟨r, rfl⟩ := h.multiple
  have hpos : (0 : ℚ) < 2 ^ t := by positivity
  have herr := h.error
  rw [sub_zero, abs_of_nonneg (by positivity)] at herr
  have hlt : (r : ℚ) < 1 := by
    by_contra hge
    have := mul_le_mul_of_nonneg_right (not_lt.mp hge) hpos.le
    linarith
  have hr : r = 0 := by
    have : r < 1 := by exact_mod_cast hlt
    omega
  rw [hr, Nat.cast_zero, zero_mul]

/-- Half a unit of a number below `2 ^ N`. -/
theorem OnGrid.error_le {t N : ℤ} {x q : ℚ} (h : OnGrid t x q) (hN : -125 ≤ N)
    (hlt : x < 2 ^ N) : |q - x| ≤ 2 ^ (N - 25) := by
  have ht : t ≤ N - 24 := by
    rcases h.unit with h149 | hunit
    · omega
    · have := (zpow_lt_zpow_iff_right₀ (by norm_num : (1 : ℚ) < 2)).mp (hunit.trans_lt hlt)
      omega
  have hle : (2 : ℚ) ^ t ≤ 2 ^ (N - 24) := zpow_le_zpow_right₀ (by norm_num) ht
  have hhalf : (2 : ℚ) ^ (N - 24) = 2 ^ (N - 25) * 2 := by
    rw [← zpow_add_one₀ (by norm_num)]
    congr 1
    ring
  linarith [h.error]

theorem RoundsTo.rounded {x : ℚ} {u : UnpackedFloat} {N : ℤ} (h : RoundsTo x u) (hN : -125 ≤ N)
    (hlt : |x| < 2 ^ N) : Rounded N x u := by
  obtain ⟨hu, s, t, m, q, rfl, hm, hval, hgrid⟩ := h
  refine ⟨hu, signed s q, hval, ?_⟩
  have hq := hgrid.nonneg
  cases s with
  | positive =>
      rw [signed, abs_of_nonneg hm] at hlt
      refine ⟨hgrid.error_le hN hlt, fun _ => hq, fun h0 => ?_⟩
      obtain rfl : m = 0 := le_antisymm h0 hm
      exact hgrid.eq_zero.le
  | negative =>
      rw [signed, abs_neg, abs_of_nonneg hm] at hlt
      refine ⟨?_, fun h0 => ?_, fun _ => neg_nonpos.mpr hq⟩
      · rw [signed, signed, ← neg_sub', abs_neg]
        exact hgrid.error_le hN hlt
      · obtain rfl : m = 0 := le_antisymm (neg_nonneg.mp h0) hm
        rw [signed, hgrid.eq_zero, neg_zero]

theorem le_maxFinite {x : ℚ} {N : ℤ} (hN : N ≤ 127) (hlt : x < 2 ^ N) : x ≤ maxFinite := by
  have hle : (2 : ℚ) ^ N ≤ 2 ^ (127 : ℤ) := zpow_le_zpow_right₀ (by norm_num) hN
  rw [maxFinite]
  norm_num at hle ⊢
  linarith

/-- Lowering an exponent keeps the value. -/
theorem decreaseExponent_spec (m : ℕ) (e t : ℤ) :
    (decreaseExponent m e t).2 = min e t ∧
      ((decreaseExponent m e t).1 : ℚ) * 2 ^ min e t = m * 2 ^ e := by
  have hexp : e - ((e - t).toNat : ℤ) = min e t := by omega
  refine ⟨hexp, ?_⟩
  rw [decreaseExponent, Nat.shiftLeft_eq, ← hexp]
  push_cast
  rw [← zpow_natCast, mul_assoc, ← zpow_add₀ (by norm_num)]
  congr 2
  ring

theorem log2_mul_two_pow {m : ℕ} (hm : m ≠ 0) (k : ℕ) : (m * 2 ^ k).log2 = m.log2 + k := by
  have hpos : 0 < 2 ^ k := by positivity
  rw [Nat.log2_eq_iff (Nat.mul_ne_zero hm hpos.ne'), pow_add, add_right_comm, pow_add]
  exact ⟨Nat.mul_le_mul_right _ (Nat.log2_self_le hm),
    Nat.mul_lt_mul_of_pos_right Nat.lt_log2_self hpos⟩

/-- `round` keeps enough bits by lowering the exponent first. -/
theorem round_rounds (s : Sign) {m : ℕ} {e : ℤ} (hm : 0 < m) (hmax : (m : ℚ) * 2 ^ e ≤ maxFinite) :
    RoundsTo (signed s (m * 2 ^ e)) (UnpackedFloat.round Format.binary32 s m e) := by
  obtain ⟨t, ht⟩ : ∃ t, t = Format.binary32.targetExponent (totalExponent m e) := ⟨_, rfl⟩
  obtain ⟨hexp, hval⟩ := decreaseExponent_spec m e t
  obtain ⟨m', hm'⟩ : ∃ m', m' = m * 2 ^ (e - t).toNat := ⟨_, rfl⟩
  have hmant : (decreaseExponent m e t).1 = m' := by
    rw [hm']
    exact Nat.shiftLeft_eq _ _
  rw [hmant] at hval
  rw [← hval] at hmax ⊢
  -- after lowering, the mantissa has 24 bits or the exponent is the smallest
  have hlog : 23 ≤ m'.log2 ∨ min e t ≤ -149 := by
    rw [hm', log2_mul_two_pow hm.ne']
    rw [targetExponent_eq] at ht
    omega
  rw [UnpackedFloat.round, ← ht]
  simp only [hmant, hexp]
  exact roundWithAccuracy_rounds s (holds_exact _) (le_targetExponent hlog) hmax

theorem normalize_rounds {m : ℤ} {e : ℤ} (z : Sign) (hmax : |(m : ℚ) * 2 ^ e| ≤ maxFinite) :
    RoundsTo (m * 2 ^ e) (UnpackedFloat.normalize Format.binary32 m e z) := by
  have hpow : (0 : ℚ) < 2 ^ e := by positivity
  rw [UnpackedFloat.normalize]
  -- the sign of the sum becomes the sign of the float
  rcases lt_trichotomy m 0 with hneg | rfl | hpos
  · have hnat : (((-m).toNat : ℕ) : ℚ) = -(m : ℚ) := by
      have : (((-m).toNat : ℕ) : ℤ) = -m := by omega
      exact_mod_cast this
    have habs : |(m : ℚ) * 2 ^ e| = (((-m).toNat : ℕ) : ℚ) * 2 ^ e := by
      have hm0 : (m : ℚ) < 0 := by exact_mod_cast hneg
      rw [abs_mul, abs_of_neg hm0, abs_of_pos hpow, hnat]
    have h := round_rounds .negative (by omega : 0 < (-m).toNat) (habs ▸ hmax)
    rw [Int.compare_eq_lt.mpr hneg]
    rwa [signed, hnat, neg_mul, neg_neg] at h
  · rw [Int.compare_eq_eq.mpr rfl]
    rw [Int.cast_zero, zero_mul]
    exact rounds_zero z
  · have hnat : ((m.toNat : ℕ) : ℚ) = (m : ℚ) := by
      have : ((m.toNat : ℕ) : ℤ) = m := by omega
      exact_mod_cast this
    have habs : |(m : ℚ) * 2 ^ e| = ((m.toNat : ℕ) : ℚ) * 2 ^ e := by
      have hm0 : (0 : ℚ) < m := by exact_mod_cast hpos
      rw [abs_mul, abs_of_pos hm0, abs_of_pos hpow, hnat]
    have h := round_rounds .positive (by omega : 0 < m.toNat) (habs ▸ hmax)
    rw [Int.compare_eq_gt.mpr hpos]
    rwa [signed, hnat] at h

/-! ## The four operations on unpacked floats -/

theorem cast_apply (s : Sign) (m : ℕ) (c : ℚ) :
    ((s.apply (m : ℤ) : ℤ) : ℚ) * c = signed s (m * c) := by
  cases s with
  | positive => rw [Sign.apply, signed, Int.cast_natCast]
  | negative => rw [Sign.apply, signed, Int.cast_neg, Int.cast_natCast, neg_mul]

/-- A float with a value is a zero or a signed magnitude. -/
theorem value_eq_some {u : UnpackedFloat} {x : ℚ} (h : value u = some x) :
    (∃ s, u = .zero s ∧ x = 0) ∨ ∃ s m e hm, u = .finite s m e hm ∧ x = signed s (m * 2 ^ e) := by
  cases u with
  | notANumber => exact nomatch h
  | infinity s => exact nomatch h
  | zero s => exact Or.inl ⟨s, rfl, (Option.some.inj h).symm⟩
  | finite s m e hm => exact Or.inr ⟨s, m, e, hm, rfl, (Option.some.inj h).symm⟩

section

variable {a b : UnpackedFloat} {x y : ℚ}

theorem add_rounds (ha : Canonical a) (hb : Canonical b) (hx : value a = some x)
    (hy : value b = some y) (hmax : |x + y| ≤ maxFinite) :
    RoundsTo (x + y) (UnpackedFloat.add Format.binary32 a b) := by
  rcases value_eq_some hx with ⟨s, rfl, rfl⟩ | ⟨s, m, e, hm, rfl, rfl⟩ <;>
    rcases value_eq_some hy with ⟨s', rfl, rfl⟩ | ⟨s', m', e', hm', rfl, rfl⟩
  · rw [UnpackedFloat.add, add_zero]
    split_ifs <;> exact rounds_zero _
  · rw [zero_add]
    exact rounds_self hb hy
  · rw [add_zero]
    exact rounds_self ha hx
  · -- both mantissas are brought to the smaller exponent, where the sum is exact
    obtain ⟨-, hval⟩ := decreaseExponent_spec m e (min e e')
    obtain ⟨-, hval'⟩ := decreaseExponent_spec m' e' (min e e')
    rw [min_eq_right (min_le_left e e')] at hval
    rw [min_eq_right (min_le_right e e')] at hval'
    rw [← hval, ← hval', ← cast_apply, ← cast_apply, ← add_mul, ← Int.cast_add] at hmax ⊢
    exact normalize_rounds .positive hmax

theorem value_neg (hy : value b = some y) : value b.neg = some (-y) := by
  rcases value_eq_some hy with ⟨s, rfl, rfl⟩ | ⟨s, m, e, hm, rfl, rfl⟩
  · rw [neg_zero]
    rfl
  · cases s with
    | positive => rfl
    | negative =>
        rw [signed, neg_neg]
        rfl

theorem canonical_neg (hb : Canonical b) : Canonical b.neg := by
  cases b with
  | finite s m e hm => exact hb
  | _ => trivial

/-- Subtracting is adding the negation, down to the sign of a zero. -/
theorem sub_eq_add_negated (a b : UnpackedFloat) :
    UnpackedFloat.sub Format.binary32 a b = UnpackedFloat.add Format.binary32 a b.neg := by
  cases a <;> cases b <;> try rfl
  case finite s m e hm s' m' e' hm' =>
    simp only [UnpackedFloat.sub, UnpackedFloat.add, UnpackedFloat.neg]
    congr 1
    cases s' with
    | positive => rfl
    | negative => exact sub_neg_eq_add _ _

theorem sub_rounds (ha : Canonical a) (hb : Canonical b) (hx : value a = some x)
    (hy : value b = some y) (hmax : |x - y| ≤ maxFinite) :
    RoundsTo (x - y) (UnpackedFloat.sub Format.binary32 a b) := by
  rw [sub_eq_add_neg] at hmax ⊢
  rw [sub_eq_add_negated]
  exact add_rounds ha (canonical_neg hb) hx (value_neg hy) hmax

theorem signed_mul (s s' : Sign) (x y : ℚ) :
    signed s x * signed s' y = signed (s * s') (x * y) := by
  cases s <;> cases s'
  · exact neg_mul_neg x y
  · exact neg_mul x y
  · exact mul_neg x y
  · rfl

theorem signed_div (s s' : Sign) (x y : ℚ) :
    signed s x / signed s' y = signed (s / s') (x / y) := by
  cases s <;> cases s'
  · exact neg_div_neg_eq x y
  · exact neg_div y x
  · exact div_neg x
  · rfl

theorem abs_signed (s : Sign) {x : ℚ} (hx : 0 ≤ x) : |signed s x| = x := by
  cases s with
  | positive => exact abs_of_nonneg hx
  | negative => exact (abs_neg x).trans (abs_of_nonneg hx)

theorem mul_rounds (ha : Canonical a) (hb : Canonical b) (hx : value a = some x)
    (hy : value b = some y) (hmax : |x * y| ≤ maxFinite) :
    RoundsTo (x * y) (UnpackedFloat.mul Format.binary32 a b) := by
  rcases value_eq_some hx with ⟨s, rfl, rfl⟩ | ⟨s, m, e, hm, rfl, rfl⟩ <;>
    rcases value_eq_some hy with ⟨s', rfl, rfl⟩ | ⟨s', m', e', hm', rfl, rfl⟩
  · rw [zero_mul]
    exact rounds_zero _
  · rw [zero_mul]
    exact rounds_zero _
  · rw [mul_zero]
    exact rounds_zero _
  · have hpos : 0 < m * m' := Nat.mul_pos hm hm'
    have hprod : (m : ℚ) * 2 ^ e * (m' * 2 ^ e') = ((m * m' : ℕ) : ℚ) * 2 ^ (e + e') := by
      rw [zpow_add₀ (by norm_num), Nat.cast_mul]
      ring
    rw [signed_mul, hprod] at hmax ⊢
    rw [abs_signed _ (by positivity)] at hmax
    -- with one normal mantissa the product has 24 bits; two subnormal ones have a low exponent
    have hlog : 23 ≤ (m * m').log2 ∨ e + e' ≤ -149 := by
      obtain ⟨-, he, -, hn⟩ := ha
      obtain ⟨-, he', -, hn'⟩ := hb
      rcases hn with hn | hn
      · exact Or.inl ((Nat.le_log2 hpos.ne').mpr (hn.trans (Nat.le_mul_of_pos_right m hm')))
      · rcases hn' with hn' | hn'
        · exact Or.inl ((Nat.le_log2 hpos.ne').mpr (hn'.trans (Nat.le_mul_of_pos_left m' hm)))
        · exact Or.inr (by omega)
    exact roundWithAccuracy_rounds (s * s') (holds_exact _) (le_targetExponent hlog) hmax

/-- A quotient of mantissas has at least the bits of the difference in length. -/
theorem log2_div (m d : ℕ) (hm : 0 < m) (hd : 0 < d) : m.log2 ≤ (m / d).log2 + d.log2 + 1 := by
  have hq : m / d + 1 ≤ 2 ^ ((m / d).log2 + 1) := Nat.lt_log2_self
  have hd' : d ≤ 2 ^ (d.log2 + 1) := Nat.lt_log2_self.le
  have hlt : m < 2 ^ ((m / d).log2 + 1 + (d.log2 + 1)) := by
    calc m < (m / d + 1) * d := by
          have := Nat.div_add_mod m d
          have := Nat.mod_lt m hd
          nlinarith
      _ ≤ 2 ^ ((m / d).log2 + 1) * 2 ^ (d.log2 + 1) := Nat.mul_le_mul hq hd'
      _ = 2 ^ ((m / d).log2 + 1 + (d.log2 + 1)) := (pow_add 2 _ _).symm
  have := (Nat.log2_lt hm.ne').mpr hlt
  omega

theorem div_rounds (hx : value a = some x) (hy : value b = some y) (hy0 : y ≠ 0)
    (hmax : |x / y| ≤ maxFinite) : RoundsTo (x / y) (UnpackedFloat.div Format.binary32 a b) := by
  rcases value_eq_some hy with ⟨s', rfl, rfl⟩ | ⟨s', m', e', hm', rfl, rfl⟩
  · exact absurd rfl hy0
  rcases value_eq_some hx with ⟨s, rfl, rfl⟩ | ⟨s, m, e, hm, rfl, rfl⟩
  · rw [zero_div]
    exact rounds_zero _
  -- the dividend is shifted left until the quotient has enough bits
  obtain ⟨t, ht⟩ : ∃ t, t = min (e - e') (Format.binary32.targetExponent
      (totalExponent m e - totalExponent m' e')) := ⟨_, rfl⟩
  obtain ⟨k, hk⟩ : ∃ k : ℕ, k = (e - e' - t).toNat := ⟨_, rfl⟩
  obtain ⟨d, hd⟩ : ∃ d, d = m * 2 ^ k := ⟨_, rfl⟩
  have hcore : divCore Format.binary32 m e m' e' = (d / m', t, accuracyOfFraction (d % m') m') := by
    rw [divCore, ← ht, ← hk, Nat.shiftLeft_eq, ← hd]
  have hquot : (m : ℚ) * 2 ^ e / (m' * 2 ^ e') = (d : ℚ) / m' * 2 ^ t := by
    have hexp : e = e' + k + t := by omega
    rw [hd, hexp, zpow_add₀ (by norm_num), zpow_add₀ (by norm_num), zpow_natCast]
    push_cast
    field_simp
  have hdpos : 0 < d := by
    rw [hd]
    positivity
  rw [signed_div, hquot] at hmax ⊢
  rw [abs_signed _ (by positivity)] at hmax
  rw [UnpackedFloat.div, hcore]
  refine roundWithAccuracy_rounds (s / s') (holds_fraction d m' hm') ?_ hmax
  have hlog := log2_div d m' hdpos hm'
  have hlogd : d.log2 = m.log2 + k := by
    rw [hd, log2_mul_two_pow hm.ne']
  rw [targetExponent_eq]
  simp only [Format.targetExponent, totalExponent, Format.mantissaBits, Format.minExponent] at ht
  norm_num at ht
  omega

/-! ## Comparison -/

/-- Canonical magnitudes are ordered by exponent first. -/
theorem magnitude_lt {m m' : ℕ} {e e' : ℤ} (hm : m < 2 ^ 24) (he : -149 ≤ e)
    (hn' : 2 ^ 23 ≤ m' ∨ e' = -149) (hlt : e < e') : (m : ℚ) * 2 ^ e < m' * 2 ^ e' := by
  have hn : 2 ^ 23 ≤ m' := hn'.resolve_right (by omega)
  have hm0 : (m : ℚ) < 2 ^ 24 := by exact_mod_cast hm
  have hm0' : (2 : ℚ) ^ 23 ≤ m' := by exact_mod_cast hn
  calc (m : ℚ) * 2 ^ e < 2 ^ 24 * 2 ^ e := by gcongr
    _ = 2 ^ 23 * 2 ^ (e + 1) := by
        rw [zpow_add_one₀ (by norm_num)]
        ring
    _ ≤ m' * 2 ^ e' := by
        gcongr
        · norm_num
        · omega

theorem compare_magnitude {m m' : ℕ} {e e' : ℤ} (hm : m < 2 ^ 24) (he : -149 ≤ e)
    (hn : 2 ^ 23 ≤ m ∨ e = -149) (hm' : m' < 2 ^ 24) (he' : -149 ≤ e')
    (hn' : 2 ^ 23 ≤ m' ∨ e' = -149) :
    (compare e e').then (compare m m') = cmp ((m : ℚ) * 2 ^ e) (m' * 2 ^ e') := by
  rcases lt_trichotomy e e' with hlt | rfl | hgt
  · rw [Int.compare_eq_lt.mpr hlt]
    exact ((cmp_eq_lt_iff _ _).mpr (magnitude_lt hm he hn' hlt)).symm
  · have hpow : (0 : ℚ) < 2 ^ e := by positivity
    rw [Int.compare_eq_eq.mpr rfl, Ordering.eq_then]
    rcases lt_trichotomy m m' with h | rfl | h
    · rw [Nat.compare_eq_lt.mpr h]
      refine ((cmp_eq_lt_iff _ _).mpr ?_).symm
      gcongr
    · rw [Nat.compare_eq_eq.mpr rfl, cmp_self_eq_eq]
    · rw [Nat.compare_eq_gt.mpr h]
      refine ((cmp_eq_gt_iff _ _).mpr ?_).symm
      gcongr
  · rw [Int.compare_eq_gt.mpr hgt]
    exact ((cmp_eq_gt_iff _ _).mpr (magnitude_lt hm' he' hn hgt)).symm

/-- **Comparison.** Comparing canonical floats is comparing their values. -/
theorem compare_eq (ha : Canonical a) (hb : Canonical b) (hx : value a = some x)
    (hy : value b = some y) : UnpackedFloat.compare a b = some (cmp x y) := by
  have hneg : ∀ u v : ℚ, cmp (-u) (-v) = (cmp u v).swap := by
    intro u v
    rw [cmp_swap]
    simp only [cmp, cmpUsing, neg_lt_neg_iff]
  rcases value_eq_some hx with ⟨s, rfl, rfl⟩ | ⟨s, m, e, hm, rfl, rfl⟩ <;>
    rcases value_eq_some hy with ⟨s', rfl, rfl⟩ | ⟨s', m', e', hm', rfl, rfl⟩
  · rw [cmp_self_eq_eq]
    rfl
  · have hpos : (0 : ℚ) < m' * 2 ^ e' := by positivity
    cases s' with
    | positive => rw [signed, (cmp_eq_lt_iff _ _).mpr hpos, UnpackedFloat.compare]
    | negative => rw [signed, (cmp_eq_gt_iff _ _).mpr (neg_neg_of_pos hpos), UnpackedFloat.compare]
  · have hpos : (0 : ℚ) < m * 2 ^ e := by positivity
    cases s with
    | positive => rw [signed, (cmp_eq_gt_iff _ _).mpr hpos, UnpackedFloat.compare]
    | negative => rw [signed, (cmp_eq_lt_iff _ _).mpr (neg_neg_of_pos hpos), UnpackedFloat.compare]
  · have hpos : (0 : ℚ) < m * 2 ^ e := by positivity
    have hpos' : (0 : ℚ) < m' * 2 ^ e' := by positivity
    obtain ⟨hlt, he, -, hn⟩ := ha
    obtain ⟨hlt', he', -, hn'⟩ := hb
    have hmag := compare_magnitude hlt he hn hlt' he' hn'
    -- equal signs compare the magnitudes, one way or the other; a sign decides the rest
    cases s <;> cases s' <;> simp only [UnpackedFloat.compare, signed]
    · rw [hmag, hneg]
    · rw [(cmp_eq_lt_iff _ _).mpr (by linarith)]
    · rw [(cmp_eq_gt_iff _ _).mpr (by linarith)]
    · rw [hmag]

/-- NaN is comparable with nothing. -/
theorem compare_notANumber_left (u : UnpackedFloat) :
    UnpackedFloat.compare .notANumber u = none := by
  cases u <;> rfl

theorem compare_notANumber_right (u : UnpackedFloat) :
    UnpackedFloat.compare u .notANumber = none := by
  cases u <;> rfl

/-- Every number lies strictly between the infinities. -/
theorem compare_infinity (hx : value b = some x) :
    UnpackedFloat.compare (.infinity .positive) b = some .gt ∧
      UnpackedFloat.compare b (.infinity .negative) = some .gt := by
  rcases value_eq_some hx with ⟨s, rfl, -⟩ | ⟨s, m, e, hm, rfl, -⟩ <;> cases s <;> exact ⟨rfl, rfl⟩

theorem value_eq_none {u : UnpackedFloat} (h : value u = none) :
    u = .notANumber ∨ ∃ s, u = .infinity s := by
  cases u with
  | notANumber => exact Or.inl rfl
  | infinity s => exact Or.inr ⟨s, rfl⟩
  | zero s => exact nomatch h
  | finite s m e hm => exact nomatch h

end

/-! ## Packing -/

/-- The sign bit is the top one. -/
theorem sign_packComponents (s : Sign) (e : BitVec 8) (m : BitVec 23) :
    Sign.ofBitVec (unpackSign (packComponents Format.binary32 s e m)) = s := by
  rw [unpackSign, packComponents, BitVec.extractLsb, BitVec.extractLsb'_append_eq_of_le (by decide),
    BitVec.extractLsb'_append_eq_of_le (by decide)]
  cases s <;> rfl

/-- The implicit bit in front of the stored ones. -/
theorem toNat_implicit (m : BitVec 23) : (1#1 ++ m).toNat = 2 ^ 23 + m.toNat := by
  rw [BitVec.toNat_append, ← Nat.shiftLeft_add_eq_or_of_lt m.isLt]
  rfl

/-- Every float a pattern unpacks to is canonical. -/
theorem canonical_unpack (v : Float32.Model) : Canonical v.unpack := by
  have hm : (@unpackMantissa Format.binary32 v.toBits.toBitVec).toNat < 2 ^ 23 :=
    (@unpackMantissa Format.binary32 v.toBits.toBitVec).isLt
  have he : (@unpackExponent Format.binary32 v.toBits.toBitVec).toNat < 2 ^ 8 :=
    (@unpackExponent Format.binary32 v.toBits.toBitVec).isLt
  have hbias : (Format.binary32.exponentBias : ℤ) + Format.binary32.mantissaBitsWithoutImplicit
      = 150 := rfl
  rw [Float32.Model.unpack, UnpackedFloat.unpack]
  split_ifs with hinf h0 hsub h0
  · trivial
  · trivial
  · trivial
  · -- exponent field 0: subnormal, so the exponent is the smallest
    have hexp : (@unpackExponent Format.binary32 v.toBits.toBitVec).toNat = 0 := by
      rw [hsub]
      rfl
    have hlt := hm.trans (by norm_num : 2 ^ 23 < 2 ^ 24)
    refine ⟨hlt, ?_, ?_, Or.inr ?_⟩ <;> rw [hexp, hbias] <;> norm_num
  · -- neither 0 nor 255: normal, so the implicit bit is set
    have hinf' : (@unpackExponent Format.binary32 v.toBits.toBitVec).toNat ≠ 255 :=
      fun h => hinf (BitVec.eq_of_toNat_eq h)
    have hsub' : (@unpackExponent Format.binary32 v.toBits.toBitVec).toNat ≠ 0 :=
      fun h => hsub (BitVec.eq_of_toNat_eq h)
    have hmant := toNat_implicit (@unpackMantissa Format.binary32 v.toBits.toBitVec)
    refine ⟨?_, ?_, ?_, Or.inl ?_⟩
    · exact hmant.trans_lt (by omega)
    · rw [hbias]
      omega
    · rw [hbias]
      omega
    · exact (Nat.le_add_right _ _).trans hmant.ge

/-- **Packing.** A canonical float survives being packed and unpacked. -/
theorem unpack_pack {u : UnpackedFloat} (h : Canonical u) : (Float32.Model.pack u).unpack = u := by
  show UnpackedFloat.unpack Format.binary32 (UnpackedFloat.pack Format.binary32 u) = u
  cases u with
  | notANumber => rfl
  | infinity s => cases s <;> rfl
  | zero s => cases s <;> rfl
  | finite s m e hm =>
      obtain ⟨hlt, hlo, hhi, hn⟩ := h
      have hbias : (e + Format.binary32.exponentBias + Format.binary32.mantissaBitsWithoutImplicit
          ).toNat = (e + 150).toNat := by
        show (e + 127 + 23).toNat = _
        omega
      have hlog : m.log2 < 24 := (Nat.log2_lt hm.ne').mpr hlt
      rw [UnpackedFloat.pack]
      simp only [hbias]
      rw [if_neg (by omega)]
      by_cases hnormal : 2 ^ 23 ≤ m
      · -- normal: the stored exponent is neither 0 nor 255
        have hlog' : 23 ≤ m.log2 := (Nat.le_log2 hm.ne').mpr hnormal
        have hexp : (BitVec.ofNat 8 (e + 150).toNat).toNat = (e + 150).toNat := by
          rw [BitVec.toNat_ofNat, Nat.mod_eq_of_lt (by omega)]
        have hmant : (1#1 ++ BitVec.ofNat 23 m).toNat = m := by
          rw [toNat_implicit, BitVec.toNat_ofNat]
          omega
        have hne : BitVec.ofNat 8 (e + 150).toNat ≠ -1#8 := by
          intro heq
          have heq' := congrArg BitVec.toNat heq
          rw [hexp] at heq'
          exact absurd heq' (by show (e + 150).toNat ≠ 255; omega)
        have hne0 : BitVec.ofNat 8 (e + 150).toNat ≠ 0#8 := by
          intro heq
          have heq' := congrArg BitVec.toNat heq
          rw [hexp] at heq'
          exact absurd heq' (by show (e + 150).toNat ≠ 0; omega)
        rw [if_pos (by show m.log2 + 1 = 24; omega), UnpackedFloat.unpack]
        simp only [unpackMantissa_packComponents, unpackExponent_packComponents,
          sign_packComponents, hne, hne0, if_false, hmant, hexp]
        congr 1
        show ((e + 150).toNat : ℤ) - (127 + 23) = e
        omega
      · -- subnormal: the stored exponent is 0, and the mantissa is not
        obtain rfl : e = -149 := hn.resolve_left hnormal
        have hlog' : m.log2 < 23 := (Nat.log2_lt hm.ne').mpr (by omega)
        have hmant : (BitVec.ofNat 23 m).toNat = m := by
          rw [BitVec.toNat_ofNat, Nat.mod_eq_of_lt (by omega)]
        have hne : BitVec.ofNat 23 m ≠ 0#23 := by
          intro heq
          have heq' := congrArg BitVec.toNat heq
          rw [hmant] at heq'
          exact hm.ne' heq'
        rw [if_neg (by show m.log2 + 1 ≠ 24; omega), UnpackedFloat.unpack]
        simp only [unpackMantissa_packComponents, unpackExponent_packComponents,
          sign_packComponents, hmant, hne, dif_neg, not_false_eq_true]
        rfl

/-- The three parts of a pattern, put together again. -/
theorem packComponents_unpack (b : BitVec 32) :
    packComponents Format.binary32 (Sign.ofBitVec (@unpackSign Format.binary32 b))
      (@unpackExponent Format.binary32 b) (@unpackMantissa Format.binary32 b) = b := by
  have hsign : ∀ v : BitVec 1, (Sign.ofBitVec v).toBitVec = v := by decide
  unfold packComponents
  rw [hsign]
  show (b.extractLsb' 31 1 ++ b.extractLsb' 23 8) ++ b.extractLsb' 0 23 = b
  rw [BitVec.extractLsb'_append_extractLsb'_eq_extractLsb' (by decide : 31 = 23 + 8),
    BitVec.extractLsb'_append_extractLsb'_eq_extractLsb' (by decide : 23 = 0 + 23)]
  exact BitVec.extractLsb'_eq_self

/-- A finite pattern survives being unpacked and packed. -/
theorem pack_unpack {b : BitVec 32} (h : @unpackExponent Format.binary32 b ≠ -1#_) :
    UnpackedFloat.pack Format.binary32 (UnpackedFloat.unpack Format.binary32 b) = b := by
  have hwhole := packComponents_unpack b
  have hm : (@unpackMantissa Format.binary32 b).toNat < 2 ^ 23 :=
    (@unpackMantissa Format.binary32 b).isLt
  have he : (@unpackExponent Format.binary32 b).toNat < 2 ^ 8 :=
    (@unpackExponent Format.binary32 b).isLt
  have hne : (@unpackExponent Format.binary32 b).toNat ≠ 255 :=
    fun heq => h (BitVec.eq_of_toNat_eq heq)
  -- what `pack` makes of an exponent field
  have hbiased : ∀ n : ℕ, ((n : ℤ) - (Format.binary32.exponentBias +
      Format.binary32.mantissaBitsWithoutImplicit) + Format.binary32.exponentBias +
      Format.binary32.mantissaBitsWithoutImplicit).toNat = n := by
    intro n
    show ((n : ℤ) - (127 + 23) + 127 + 23).toNat = n
    omega
  unfold UnpackedFloat.unpack
  rw [if_neg h]
  by_cases hsub : @unpackExponent Format.binary32 b = 0#_
  · rw [if_pos hsub]
    rw [hsub] at hwhole
    by_cases h0 : @unpackMantissa Format.binary32 b = 0#_
    · rw [dif_pos h0]
      rw [h0] at hwhole
      exact hwhole
    · -- subnormal: the mantissa is too short for the implicit bit
      have hpos : (@unpackMantissa Format.binary32 b).toNat ≠ 0 :=
        fun heq => h0 (BitVec.eq_of_toNat_eq heq)
      have hlog := (Nat.log2_lt hpos).mpr hm
      have hexp : (@unpackExponent Format.binary32 b).toNat = 0 := congrArg BitVec.toNat hsub
      rw [dif_neg h0]
      simp only [UnpackedFloat.pack, hexp]
      rw [if_neg (by decide), if_neg (by show _ + 1 ≠ 24; omega), BitVec.ofNat_toNat]
      exact hwhole
  · -- normal: the implicit bit is set, and dropped again
    have hmant := toNat_implicit (@unpackMantissa Format.binary32 b)
    have hlog : (2 ^ 23 + (@unpackMantissa Format.binary32 b).toNat).log2 = 23 := by
      refine (Nat.log2_eq_iff (by omega)).mpr ⟨by omega, by omega⟩
    have hdrop : BitVec.ofNat 23 (2 ^ 23 + (@unpackMantissa Format.binary32 b).toNat) =
        @unpackMantissa Format.binary32 b := by
      apply BitVec.eq_of_toNat_eq
      rw [BitVec.toNat_ofNat, Nat.add_mod_left, Nat.mod_eq_of_lt hm]
    rw [if_neg hsub]
    simp only [UnpackedFloat.pack, hbiased, hmant]
    rw [if_neg (by show ¬ 2 ^ 8 ≤ _; omega), hlog, if_pos (by decide), hdrop, BitVec.ofNat_toNat]
    exact hwhole

/-! ## Floats

Everything above, at the type a program computes with. -/

/-- The rational value of a finite float. -/
def toRat (a : Float32) : Option ℚ := value a.toModel.unpack

/-- NaN. -/
def IsNaN (a : Float32) : Prop := a.toModel.unpack = .notANumber

/-- A finite pattern is kept. -/
theorem toBits_ofBits {b : UInt32} (h : b.toNat / 2 ^ 23 % 2 ^ 8 ≠ 255) :
    (Float32.ofBits b).toBits = b := by
  have hfinite : @unpackExponent Format.binary32 b.toBitVec ≠ -1#_ := by
    intro hexp
    have htoNat := congrArg BitVec.toNat hexp
    apply h
    rw [← Nat.shiftRight_eq_div_pow]
    exact (BitVec.extractLsb'_toNat 23 8 b.toBitVec).symm.trans htoNat
  apply UInt32.toBitVec_inj.mp
  exact pack_unpack hfinite

section

variable {a b : Float32} {x y : ℚ} {N : ℤ}

theorem toRat_of_rounds {u : UnpackedFloat} (hN : -125 ≤ N) (hN' : N ≤ 127) (hlt : |x| < 2 ^ N)
    (h : |x| ≤ maxFinite → RoundsTo x u) :
    ∃ q, toRat (.ofModel (.pack u)) = some q ∧ Near N x q := by
  obtain ⟨hcan, q, hval, hnear⟩ := (h (le_maxFinite hN' hlt)).rounded hN hlt
  refine ⟨q, ?_, hnear⟩
  rw [toRat, unpack_pack hcan]
  exact hval

theorem toRat_add (N : ℤ) (hx : toRat a = some x) (hy : toRat b = some y) (hN : -125 ≤ N)
    (hN' : N ≤ 127) (hlt : |x + y| < 2 ^ N) : ∃ q, toRat (a + b) = some q ∧ Near N (x + y) q :=
  toRat_of_rounds hN hN' hlt (add_rounds (canonical_unpack _) (canonical_unpack _) hx hy)

theorem toRat_sub (N : ℤ) (hx : toRat a = some x) (hy : toRat b = some y) (hN : -125 ≤ N)
    (hN' : N ≤ 127) (hlt : |x - y| < 2 ^ N) : ∃ q, toRat (a - b) = some q ∧ Near N (x - y) q :=
  toRat_of_rounds hN hN' hlt (sub_rounds (canonical_unpack _) (canonical_unpack _) hx hy)

theorem toRat_mul (N : ℤ) (hx : toRat a = some x) (hy : toRat b = some y) (hN : -125 ≤ N)
    (hN' : N ≤ 127) (hlt : |x * y| < 2 ^ N) : ∃ q, toRat (a * b) = some q ∧ Near N (x * y) q :=
  toRat_of_rounds hN hN' hlt (mul_rounds (canonical_unpack _) (canonical_unpack _) hx hy)

theorem toRat_div (N : ℤ) (hx : toRat a = some x) (hy : toRat b = some y) (hy0 : y ≠ 0)
    (hN : -125 ≤ N) (hN' : N ≤ 127) (hlt : |x / y| < 2 ^ N) :
    ∃ q, toRat (a / b) = some q ∧ Near N (x / y) q :=
  toRat_of_rounds hN hN' hlt (div_rounds hx hy hy0)

theorem lt_def (a b : Float32) : a < b ↔ UnpackedFloat.lt a.toModel.unpack b.toModel.unpack := by
  show (decide (UnpackedFloat.lt a.toModel.unpack b.toModel.unpack = true)) = true ↔ _
  rw [decide_eq_true_iff]

theorem le_def (a b : Float32) : a ≤ b ↔ UnpackedFloat.le a.toModel.unpack b.toModel.unpack := by
  show (decide (UnpackedFloat.le a.toModel.unpack b.toModel.unpack = true)) = true ↔ _
  rw [decide_eq_true_iff]

theorem lt_iff (hx : toRat a = some x) (hy : toRat b = some y) : a < b ↔ x < y := by
  have hcmp := compare_eq (canonical_unpack _) (canonical_unpack _) hx hy
  rw [lt_def, UnpackedFloat.lt, hcmp, ← cmp_eq_lt_iff]
  cases cmp x y <;> decide

theorem le_iff (hx : toRat a = some x) (hy : toRat b = some y) : a ≤ b ↔ x ≤ y := by
  have hcmp := compare_eq (canonical_unpack _) (canonical_unpack _) hx hy
  rw [le_def, UnpackedFloat.le, hcmp, ← not_lt, ← cmp_eq_gt_iff]
  cases cmp x y <;> decide

/-- What lies between two finite numbers is finite. -/
theorem toRat_of_le_of_le {lo hi : Float32} (hx : toRat lo = some x) (hy : toRat hi = some y)
    (hlo : lo ≤ a) (hhi : a ≤ hi) : ∃ q, toRat a = some q ∧ x ≤ q ∧ q ≤ y := by
  cases hq : toRat a with
  | some q => exact ⟨q, rfl, (le_iff hx hq).mp hlo, (le_iff hq hy).mp hhi⟩
  | none =>
      -- only NaN and the infinities have no value, and each breaks one of the bounds
      rw [le_def, UnpackedFloat.le] at hlo hhi
      rcases value_eq_none hq with hu | ⟨s, hu⟩ <;> rw [hu] at hlo hhi
      · rw [compare_notANumber_left] at hhi
        exact absurd hhi (by decide)
      · cases s with
        | positive =>
            rw [(compare_infinity hy).1] at hhi
            exact absurd hhi (by decide)
        | negative =>
            rw [(compare_infinity hx).2] at hlo
            exact absurd hlo (by decide)

/-! ## NaN -/

theorem not_lt_of_isNaN (ha : IsNaN a) : ¬ a < b := by
  rw [lt_def, UnpackedFloat.lt, ha, compare_notANumber_left]
  decide

theorem not_le_of_isNaN (hb : IsNaN b) : ¬ a ≤ b := by
  rw [le_def, UnpackedFloat.le, hb, compare_notANumber_right]
  decide

/-- An operation that gives NaN on unpacked floats gives NaN. -/
theorem isNaN_of_eq {u : UnpackedFloat} (h : u = .notANumber) :
    IsNaN (.ofModel (.pack u)) := by
  rw [h]
  exact @unpack_pack .notANumber trivial

theorem IsNaN.sub_right (hb : IsNaN b) (a : Float32) : IsNaN (a - b) :=
  isNaN_of_eq (by rw [hb]; cases a.toModel.unpack <;> rfl)

theorem IsNaN.mul_left (ha : IsNaN a) (b : Float32) : IsNaN (a * b) :=
  isNaN_of_eq (by rw [ha]; rfl)

theorem IsNaN.div_left (ha : IsNaN a) (b : Float32) : IsNaN (a / b) :=
  isNaN_of_eq (by rw [ha]; rfl)

/-! ## Bounds that admit NaN -/

/-- `a` is NaN, or a number from `lo` to `hi`. -/
def Within (lo hi : ℚ) (a : Float32) : Prop :=
  IsNaN a ∨ ∃ q, toRat a = some q ∧ lo ≤ q ∧ q ≤ hi

/-- A step of a computation that keeps NaN and sends numbers between the old
bounds to numbers between the new ones. -/
theorem Within.map {lo hi lo' hi' : ℚ} (ha : Within lo hi a) (f : Float32 → Float32)
    (hnan : ∀ c, IsNaN c → IsNaN (f c))
    (hnum : ∀ c q, toRat c = some q → lo ≤ q → q ≤ hi →
      ∃ q', toRat (f c) = some q' ∧ lo' ≤ q' ∧ q' ≤ hi') : Within lo' hi' (f a) := by
  rcases ha with hn | ⟨q, hq, hlo, hhi⟩
  · exact Or.inl (hnan a hn)
  · exact Or.inr (hnum a q hq hlo hhi)

/-- Rounding widens a bound by half a unit. -/
theorem Near.between {q : ℚ} (h : Near N x q) (lo hi : ℚ) (hlo : lo + 2 ^ (N - 25) ≤ x)
    (hhi : x ≤ hi - 2 ^ (N - 25)) : lo ≤ q ∧ q ≤ hi := by
  obtain ⟨h1, h2⟩ := abs_le.mp h.error
  constructor <;> linarith

end

end CmsProxy.Binary32
