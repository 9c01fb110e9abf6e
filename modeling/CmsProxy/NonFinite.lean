/-
Values that are no numbers, on their way through the operations.

An infinite operand is not an error of binary32: it goes through comparisons, sums
and products like a very large number, and a result that is too large becomes
infinite. Only NaN is lost for good, and this file says where one can come from. A
sum of squares is never negative and is NaN only where a square is
(`isNaN_add_squares_iff`), whatever overflows on the way.
-/
import CmsProxy.Binary32

set_option autoImplicit false

namespace CmsProxy.Binary32

open Float.Model Float.Model.UnpackedFloat

/-! ## Signs -/

/-- Zero, a positive number or positive infinity. -/
def Nonnegative : UnpackedFloat → Prop
  | .notANumber => False
  | .infinity s => s = .positive
  | .zero _ => True
  | .finite s _ _ _ => s = .positive

/-- A pattern that is put together with an exponent for numbers is one, of this sign. -/
theorem unpack_packComponents (s : Sign) {e : BitVec 8} (m : BitVec 23) (he : e ≠ -1#8) :
    UnpackedFloat.unpack Format.binary32 (packComponents Format.binary32 s e m) = .zero s ∨
      ∃ m' e' hm, UnpackedFloat.unpack Format.binary32 (packComponents Format.binary32 s e m) =
        .finite s m' e' hm := by
  unfold UnpackedFloat.unpack
  simp only [unpackMantissa_packComponents, unpackExponent_packComponents, sign_packComponents, he,
    if_false]
  by_cases h0 : e = 0#8
  · rw [if_pos h0]
    by_cases hm : m = 0#23
    · exact Or.inl (dif_pos hm)
    · have hpos : 0 < m.toNat := Nat.pos_of_ne_zero fun h => hm (BitVec.eq_of_toNat_eq h)
      exact Or.inr ⟨_, _, hpos, dif_neg hm⟩
  · have hpos : 0 < (1#1 ++ m).toNat := by
      rw [toNat_implicit]
      omega
    exact Or.inr ⟨_, _, hpos, if_neg h0⟩

/-- Packing keeps the sign, also of what is too large for the format. -/
theorem nonnegative_pack {u : UnpackedFloat} (h : Nonnegative u) :
    Nonnegative (Float32.Model.pack u).unpack := by
  show Nonnegative (UnpackedFloat.unpack Format.binary32 (UnpackedFloat.pack Format.binary32 u))
  have hcomponents : ∀ {e : BitVec 8} (m : BitVec 23), e ≠ -1#8 → Nonnegative
      (UnpackedFloat.unpack Format.binary32 (packComponents Format.binary32 .positive e m)) := by
    intro e m he
    rcases unpack_packComponents .positive m he with hu | ⟨m', e', hm, hu⟩ <;> rw [hu]
    · trivial
    · rfl
  cases u with
  | notANumber => exact h.elim
  | infinity s =>
      obtain rfl : s = .positive := h
      rfl
  | zero s => cases s <;> trivial
  | finite s m e hm =>
      obtain rfl : s = .positive := h
      rw [UnpackedFloat.pack]
      split_ifs with hlarge hnormal
      · rfl
      · refine hcomponents _ fun heq => hlarge ?_
        -- an exponent of ones would have been too large
        have hexp := congrArg BitVec.toNat heq
        rw [BitVec.toNat_ofNat] at hexp
        have h255 : (e + Format.binary32.exponentBias +
            Format.binary32.mantissaBitsWithoutImplicit).toNat % 2 ^ 8 = 255 := hexp
        have hle := Nat.mod_le (e + Format.binary32.exponentBias +
          Format.binary32.mantissaBitsWithoutImplicit).toNat (2 ^ 8)
        rw [h255] at hle
        exact Nat.succ_le_succ hle
      · exact hcomponents _ (by decide)

theorem roundWithAccuracy_nonnegative (m : ℕ) (e : ℤ) (acc : Accuracy) :
    Nonnegative (roundWithAccuracy Format.binary32 .positive m e acc) := by
  obtain ⟨em, t, hfirst⟩ : ∃ em t, shiftToTargetExponent Format.binary32 m e acc = (em, t) :=
    ⟨_, _, rfl⟩
  obtain ⟨em', t', hsecond⟩ : ∃ em' t',
      shiftToTargetExponent Format.binary32 em.roundedMantissa t .exact = (em', t') := ⟨_, _, rfl⟩
  rw [roundWithAccuracy, hfirst]
  simp only [hsecond]
  split_ifs
  · trivial
  · rfl

/-- A square is not negative. -/
theorem mul_self_nonnegative {u : UnpackedFloat} (h : u ≠ .notANumber) :
    Nonnegative (UnpackedFloat.mul Format.binary32 u u) := by
  have hsign : ∀ s : Sign, s * s = .positive := by
    intro s
    cases s <;> rfl
  cases u with
  | notANumber => exact absurd rfl h
  | infinity s => exact hsign s
  | zero s => trivial
  | finite s m e hm =>
      rw [UnpackedFloat.mul, hsign]
      exact roundWithAccuracy_nonnegative _ _ _

theorem normalize_nonnegative {m : ℤ} (hm : 0 ≤ m) (e : ℤ) :
    Nonnegative (UnpackedFloat.normalize Format.binary32 m e .positive) := by
  rw [UnpackedFloat.normalize]
  rcases hm.lt_or_eq with hpos | rfl
  · rw [Int.compare_eq_gt.mpr hpos]
    exact roundWithAccuracy_nonnegative _ _ _
  · rw [Int.compare_eq_eq.mpr rfl]
    trivial

/-- Nor is a sum of what is not. -/
theorem add_nonnegative {u v : UnpackedFloat} (hu : Nonnegative u) (hv : Nonnegative v) :
    Nonnegative (UnpackedFloat.add Format.binary32 u v) := by
  cases u with
  | notANumber => exact hu.elim
  | infinity s =>
      obtain rfl : s = .positive := hu
      cases v with
      | notANumber => exact hv.elim
      | infinity s' =>
          obtain rfl : s' = .positive := hv
          rfl
      | zero s' => rfl
      | finite s' m' e' hm' => rfl
  | zero s =>
      cases v with
      | notANumber => exact hv.elim
      | infinity s' => exact hv
      | zero s' =>
          rw [UnpackedFloat.add]
          split_ifs <;> trivial
      | finite s' m' e' hm' => exact hv
  | finite s m e hm =>
      obtain rfl : s = .positive := hu
      cases v with
      | notANumber => exact hv.elim
      | infinity s' => exact hv
      | zero s' => rfl
      | finite s' m' e' hm' =>
          obtain rfl : s' = .positive := hv
          apply normalize_nonnegative
          exact Int.add_nonneg (Int.natCast_nonneg _) (Int.natCast_nonneg _)

/-- What is not negative is not below zero. -/
theorem lt_zero_of_nonnegative {u : UnpackedFloat} (hu : Nonnegative u) (s : Sign) :
    UnpackedFloat.lt u (.zero s) = false := by
  cases u with
  | notANumber => exact hu.elim
  | infinity s' =>
      obtain rfl : s' = .positive := hu
      rfl
  | zero s' => rfl
  | finite s' m e hm =>
      obtain rfl : s' = .positive := hu
      rfl

/-- Taking zero away changes zeros only. -/
theorem sub_zero_eq (u : UnpackedFloat) (s : Sign) :
    UnpackedFloat.sub Format.binary32 u (.zero s) = u ∨
      ∃ s' s'', u = .zero s' ∧ UnpackedFloat.sub Format.binary32 u (.zero s) = .zero s'' := by
  cases u with
  | notANumber => exact Or.inl rfl
  | infinity s' => exact Or.inl rfl
  | finite s' m e hm => exact Or.inl rfl
  | zero s' =>
      right
      rw [UnpackedFloat.sub]
      split_ifs
      · exact ⟨s', s', rfl, rfl⟩
      · exact ⟨s', .positive, rfl, rfl⟩

/-! ## Floats -/

section

variable {a b : Float32}

theorem IsNaN.toRat_eq_none (ha : IsNaN a) : toRat a = none := by
  rw [toRat, ha]
  rfl

theorem not_isNaN_of_toRat {q : ℚ} (hq : toRat a = some q) : ¬ IsNaN a := by
  intro ha
  rw [ha.toRat_eq_none] at hq
  exact absurd hq (Option.some_ne_none q).symm

theorem IsNaN.add_left (ha : IsNaN a) (b : Float32) : IsNaN (a + b) :=
  isNaN_of_eq (by rw [ha]; rfl)

theorem IsNaN.add_right (hb : IsNaN b) (a : Float32) : IsNaN (a + b) := by
  apply isNaN_of_eq
  rw [hb]
  cases a.toModel.unpack <;> rfl

/-- Taking zero away makes no NaN, and loses none. -/
theorem isNaN_sub_zero_iff {s : Sign} (hb : b.toModel.unpack = .zero s) :
    IsNaN (a - b) ↔ IsNaN a := by
  have hsub : IsNaN (a - b) ↔ (Float32.Model.pack (UnpackedFloat.sub Format.binary32
      a.toModel.unpack b.toModel.unpack)).unpack = .notANumber := Iff.rfl
  rw [hsub, hb]
  rcases sub_zero_eq a.toModel.unpack s with hu | ⟨s', s'', hu, hzero⟩
  · rw [hu, unpack_pack (canonical_unpack _)]
    rfl
  · rw [hzero, IsNaN, hu, @unpack_pack (.zero s'') trivial]
    exact iff_of_false UnpackedFloat.noConfusion UnpackedFloat.noConfusion

/-- The squares of two numbers and their sum. -/
theorem add_squares_nonnegative (ha : ¬ IsNaN a) (hb : ¬ IsNaN b) :
    Nonnegative (a * a + b * b).toModel.unpack :=
  nonnegative_pack (add_nonnegative (nonnegative_pack (mul_self_nonnegative ha))
    (nonnegative_pack (mul_self_nonnegative hb)))

/-- A sum of two squares is NaN where one of the numbers is, and nowhere else. -/
theorem isNaN_add_squares_iff : IsNaN (a * a + b * b) ↔ IsNaN a ∨ IsNaN b := by
  constructor
  · intro hsum
    by_contra hno
    obtain ⟨ha, hb⟩ := not_or.mp hno
    have hsign := add_squares_nonnegative ha hb
    rw [hsum] at hsign
    exact hsign
  · rintro (ha | hb)
    · exact (ha.mul_left a).add_left _
    · exact (hb.mul_left b).add_right _

/-- It is never negative. -/
theorem not_add_squares_lt {c : Float32} {s : Sign} (hc : c.toModel.unpack = .zero s) :
    ¬ a * a + b * b < c := by
  by_cases hsum : IsNaN (a * a + b * b)
  · exact not_lt_of_isNaN hsum
  · obtain ⟨ha, hb⟩ := not_or.mp (mt isNaN_add_squares_iff.mpr hsum)
    rw [lt_def, hc, lt_zero_of_nonnegative (add_squares_nonnegative ha hb)]
    exact Bool.false_ne_true

theorem isNaN_iff : a.isNaN = true ↔ IsNaN a := by
  show a.toModel.unpack.isNaN = true ↔ a.toModel.unpack = .notANumber
  cases a.toModel.unpack <;> simp [UnpackedFloat.isNaN]

/-- The root of a negative number is NaN, and of NaN. -/
theorem isNaN_sqrt_iff {c : Float32} {s : Sign} (hc : c.toModel.unpack = .zero s) :
    IsNaN a.sqrt ↔ IsNaN a ∨ a < c := by
  have hsqrt : IsNaN a.sqrt ↔ (Float32.Model.pack (UnpackedFloat.sqrt Format.binary32
      a.toModel.unpack)).unpack = .notANumber := Iff.rfl
  have hnot : ∀ {u}, Nonnegative u → (Float32.Model.pack u).unpack ≠ .notANumber := by
    intro u hu hnan
    have hpacked := nonnegative_pack hu
    rw [hnan] at hpacked
    exact hpacked
  rw [hsqrt, IsNaN, lt_def, hc]
  cases a.toModel.unpack with
  | notANumber => exact iff_of_true (@unpack_pack .notANumber trivial) (Or.inl rfl)
  | infinity s' =>
      cases s' with
      | positive => exact iff_of_false (hnot rfl) (by rintro (h | h) <;> cases h)
      | negative => exact iff_of_true (@unpack_pack .notANumber trivial) (Or.inr rfl)
  | zero s' => exact iff_of_false (hnot trivial) (by rintro (h | h) <;> cases h)
  | finite s' m e hm =>
      cases s' with
      | positive =>
          exact iff_of_false (hnot (roundWithAccuracy_nonnegative _ _ _))
            (by rintro (h | h) <;> cases h)
      | negative => exact iff_of_true (@unpack_pack .notANumber trivial) (Or.inr rfl)

end

end CmsProxy.Binary32
