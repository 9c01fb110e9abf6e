/-
For which floats the wrap ends.

`mod360` adds or subtracts a turn until the angle is in range. Up to 2^33 the spacing
of the floats is small enough for every round to make progress, and both loops end in
the range (`wraps_of_le`). Above, a turn is less than half the spacing: the rounded
sum is the angle itself, and the loop stays where it is (`mod360_stuck`). The two
together say exactly which angles are wrapped (`wraps_iff`).

The converter only wraps what `atan2` returns, so its angles are far below the limit
(`CueingBounds.lean`); a heading handed to `cartesian2target` is not checked.
-/
import CmsProxy.CueingBounds
import CmsProxy.Nearest

set_option autoImplicit false

namespace CmsProxy.WrapLimits

open Binary32 Interfaces CueingMath CueingBounds Runs

section

variable {a : Float32} {q : ℚ}

/-! ## Progress -/

/-- The angle is at most 2^33 either way, and `n` rounds are enough to raise it. -/
def Raising (n : ℕ) (a : Float32) : Prop :=
  ∃ q, toRat a = some q ∧ -(104 * n) ≤ q ∧ -2 ^ 33 ≤ q ∧ q ≤ 2 ^ 33

/-- The angle is not negative and at most 2^33, and `n` rounds are enough to lower it. -/
def Lowering (n : ℕ) (a : Float32) : Prop :=
  ∃ q, toRat a = some q ∧ q < 360 + 104 * n ∧ 0 ≤ q ∧ q ≤ 2 ^ 33

/-- One addition raises the angle by at least 104. -/
theorem raising_step (n : ℕ) (a : Float32) (h : Raising n a)
    (hneg : decide (a < whole Float32 0) = true) :
    ∃ m, n = m + 1 ∧ Raising m (a + whole Float32 360) := by
  obtain ⟨q, hq, hn, hlo, -⟩ := h
  rw [decide_eq_true_iff, lt_iff hq toRat_0] at hneg
  obtain ⟨m, rfl⟩ : ∃ m, n = m + 1 := by
    cases n with
    | zero =>
        rw [Nat.cast_zero, mul_zero, neg_zero] at hn
        exact absurd hneg (not_lt.mpr hn)
    | succ m => exact ⟨m, rfl⟩
  obtain ⟨q', hq', hnear⟩ := toRat_add 33 hq toRat_360 (by norm_num) (by norm_num)
    (by rw [abs_lt]; norm_num at hlo ⊢; constructor <;> linarith)
  obtain ⟨hbelow, habove⟩ := abs_le.mp hnear.error
  norm_num at hbelow habove hlo
  push_cast at hn
  exact ⟨m, rfl, q', hq', by linarith, by norm_num; linarith, by norm_num; linarith⟩

/-- One subtraction lowers it by at least 104. -/
theorem lowering_step (n : ℕ) (a : Float32) (h : Lowering n a)
    (hlarge : decide (whole Float32 360 ≤ a) = true) :
    ∃ m, n = m + 1 ∧ Lowering m (a - whole Float32 360) := by
  obtain ⟨q, hq, hn, h0, hhi⟩ := h
  rw [decide_eq_true_iff, le_iff toRat_360 hq] at hlarge
  obtain ⟨m, rfl⟩ : ∃ m, n = m + 1 := by
    cases n with
    | zero =>
        rw [Nat.cast_zero, mul_zero, add_zero] at hn
        exact absurd hlarge (not_le.mpr hn)
    | succ m => exact ⟨m, rfl⟩
  obtain ⟨q', hq', hnear⟩ := toRat_sub 33 hq toRat_360 (by norm_num) (by norm_num)
    (by rw [abs_lt]; norm_num at hhi ⊢; constructor <;> linarith)
  obtain ⟨-, habove⟩ := abs_le.mp hnear.error
  norm_num at habove hhi
  push_cast at hn
  exact ⟨m, rfl, q', hq', by linarith, hnear.nonneg (by linarith), by norm_num; linarith⟩

/-- The wrap of `a` ends, in the range. -/
def Wraps (a : Float32) : Prop :=
  ∃ n, ∀ fuel, n ≤ fuel → ∃ r q, mod360 fuel a = some r ∧ toRat r = some q ∧ 0 ≤ q ∧ q < 360

theorem wraps_of_le (hq : toRat a = some q) (hle : |q| ≤ 2 ^ 33) : Wraps a := by
  obtain ⟨hlo, hhi⟩ := abs_le.mp hle
  -- 2^27 rounds of at least 104 degrees are more than 2^33 degrees
  have hraising : Raising (2 ^ 27) a := by
    refine ⟨q, hq, ?_, hlo, hhi⟩
    norm_num at hlo ⊢
    linarith
  obtain ⟨m, b, hraise, ⟨q', hq', -, -, hhi'⟩, hb⟩ := whileLoop_finishes raising_step hraising
  rw [decide_eq_false_iff_not, lt_iff hq' toRat_0, not_lt] at hb
  have hlowering : Lowering (2 ^ 27) b := by
    refine ⟨q', hq', ?_, hb, hhi'⟩
    norm_num at hhi' ⊢
    linarith
  obtain ⟨m', r, hlower, ⟨q'', hq'', -, h0, -⟩, hr⟩ := whileLoop_finishes lowering_step hlowering
  rw [decide_eq_false_iff_not, le_iff toRat_360 hq'', not_le] at hr
  refine ⟨2 ^ 27 + 1, fun fuel hfuel => ⟨r, q'', ?_, hq'', h0, hr⟩⟩
  have hraise' : raiseLoop fuel a = some b := whileLoop_mono hfuel hraise
  rw [mod360, hraise', Option.bind_some]
  exact whileLoop_mono hfuel hlower

/-! ## No progress -/

/-- Far below zero an addition changes nothing. -/
theorem raiseLoop_stuck (hq : toRat a = some q) (hlt : q < -2 ^ 33) (fuel : ℕ) :
    raiseLoop fuel a = none := by
  refine @whileLoop_never _ _ _ (fun b => toRat b = some q) (fun b hb => ⟨?_, ?_⟩) fuel a hq
  · rw [decide_eq_true_iff, lt_iff hb toRat_0]
    linarith
  · norm_num at hlt
    apply toRat_add_absorbed (t := 10) hb toRat_360
    · rw [abs_of_neg (by linarith)]
      norm_num
      linarith
    · norm_num
    · rw [abs_of_neg (by linarith), abs_of_neg (by linarith)]
      linarith

/-- Far above, a subtraction changes nothing. -/
theorem lowerLoop_stuck (hq : toRat a = some q) (hlt : 2 ^ 33 < q) (fuel : ℕ) :
    lowerLoop fuel a = none := by
  refine @whileLoop_never _ _ _ (fun b => toRat b = some q) (fun b hb => ⟨?_, ?_⟩) fuel a hq
  · rw [decide_eq_true_iff, le_iff toRat_360 hb]
    linarith
  · norm_num at hlt
    apply toRat_sub_absorbed (t := 10) hb toRat_360
    · rw [abs_of_pos (by linarith)]
      norm_num
      linarith
    · norm_num
    · rw [abs_of_pos (by linarith), abs_of_pos (by linarith)]
      linarith

theorem mod360_stuck (hq : toRat a = some q) (hlt : 2 ^ 33 < |q|) (fuel : ℕ) :
    mod360 fuel a = none := by
  rw [mod360]
  rcases lt_abs.mp hlt with hpos | hneg
  · -- the first loop is not entered
    cases fuel with
    | zero => rfl
    | succ fuel =>
        rw [raiseLoop_exit hq (by linarith), Option.bind_some]
        exact lowerLoop_stuck hq hpos _
  · rw [raiseLoop_stuck hq (by linarith), Option.bind_none]

/-- **The wrap ends** for the floats of up to 2^33 either way, and for no others. -/
theorem wraps_iff (hq : toRat a = some q) : Wraps a ↔ |q| ≤ 2 ^ 33 := by
  constructor
  · rintro ⟨n, hn⟩
    by_contra hlt
    obtain ⟨r, -, hr, -⟩ := hn n le_rfl
    rw [mod360_stuck hq (not_le.mp hlt)] at hr
    exact absurd hr (Option.some_ne_none r).symm
  · exact wraps_of_le hq

end

/-- Of a full turn. -/
theorem wraps_iff_turn : Wraps (whole Float32 360) :=
  (wraps_iff toRat_360).mpr (by norm_num)

/-- The wrap of 2^34 never ends. -/
theorem large_not_wrapped :
    ∃ a : Float32, toRat a = some (2 ^ 34) ∧ ∀ fuel, mod360 fuel a = none := by
  have h : (Float32.ofBits 0x50800000).toModel.unpack = .finite .positive 8388608 11 (by decide) :=
    rfl
  have hvalue : toRat (Float32.ofBits 0x50800000) = some (2 ^ 34) := by
    rw [toRat_const h]
    norm_num [signed]
  exact ⟨_, hvalue, mod360_stuck hvalue (by norm_num)⟩

end CmsProxy.WrapLimits
