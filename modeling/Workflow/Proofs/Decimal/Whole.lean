import Mathlib.Tactic.NormNum

/-!
# Whole numbers as floats

`ofInt_isFinite`: a whole number of 64 bits is finite as a float. Each operation on the way rounds,
and a number overflows only by its exponent, so it is enough to bound the exponents.
-/

namespace Workflow.Decimal

open Float.Model
open Float.Model.UnpackedFloat (Sign Accuracy ExtendedMantissa packComponents shiftToExponent
  shiftToTargetExponent roundWithAccuracy)

variable {x y : UnpackedFloat} {s : Sign} {m m' n : Nat} {e e' j k : Int} {a : Accuracy} {bits : Nat}

/-- A number whose exponent is at most `k`. -/
inductive Within (k : Int) : UnpackedFloat → Prop
  | zero (s : Sign) : Within k (.zero s)
  | finite (s : Sign) {m : Nat} {e : Int} (hm : 0 < m) (he : e ≤ k) : Within k (.finite s m e hm)

/-- A number whose exponent is at most `k` and whose mantissa fits a float. -/
inductive Tame (k : Int) : UnpackedFloat → Prop
  | zero (s : Sign) : Tame k (.zero s)
  | finite (s : Sign) {m : Nat} {e : Int} (hm : 0 < m) (he : e ≤ k) (hlt : m < 2 ^ 53) :
    Tame k (.finite s m e hm)

theorem Within.mono (h : Within j x) (hk : j ≤ k) : Within k x := by
  cases h with
  | zero s => exact .zero s
  | finite s hm he => exact .finite s hm (he.trans hk)

theorem Tame.isFinite (h : Tame k x) : x.isFinite := by
  cases h <;> rfl

theorem Tame.neg (h : Tame k x) : Within k x.neg := by
  cases h with
  | zero s => exact .zero _
  | finite s hm he => exact .finite _ hm he

-- ---------------------------------------------------------------------------
-- Rounding
-- ---------------------------------------------------------------------------

theorem mantissaBits_binary64 : Format.binary64.mantissaBits = 53 := rfl

theorem shiftRight_mantissa (em : ExtendedMantissa) (n : Nat) :
    (em >>> n).mantissa = em.mantissa / 2 ^ n := by
  induction n generalizing em with
  | zero => simp [HShiftRight.hShiftRight, Nat.repeat]
  | succ n ih =>
    change (em >>> n).mantissa / 2 = _
    rw [ih, Nat.div_div_eq_div_mul, ← Nat.pow_succ]

theorem roundedMantissa_le (em : ExtendedMantissa) : em.roundedMantissa ≤ em.mantissa + 1 := by
  rcases em with ⟨m, r, s⟩
  cases r <;> cases s <;>
    simp [ExtendedMantissa.roundedMantissa, ExtendedMantissa.accuracy, Accuracy.roundToNearestEven]
  omega

theorem shift_mantissa_le : (shiftToTargetExponent .binary64 m e a).1.mantissa ≤ m := by
  have hm : (ExtendedMantissa.ofMantissaAndAccuracy m a).mantissa = m := by
    unfold ExtendedMantissa.ofMantissaAndAccuracy
    split <;> rfl
  simp only [shiftToTargetExponent, shiftToExponent, shiftRight_mantissa, hm]
  exact Nat.div_le_self _ _

theorem shift_exponent_le (h : m < 2 ^ bits) :
    (shiftToTargetExponent .binary64 m e a).2 ≤ max e 0 + bits := by
  have hlog : m.log2 ≤ bits := by
    by_cases hm : m = 0
    · simp [hm]
    · exact ((Nat.log2_lt hm).mpr h).le
  simp only [shiftToTargetExponent, shiftToExponent, Format.targetExponent, totalExponent,
    mantissaBits_binary64, Format.minExponent]
  norm_num
  omega

/-- A mantissa is shifted and rounded, and shifted once more in case that it has grown by a bit. -/
theorem roundWithAccuracy_cases {once twice : ExtendedMantissa × Int}
    (hone : shiftToTargetExponent .binary64 m e a = once)
    (htwo : shiftToTargetExponent .binary64 once.1.roundedMantissa once.2 .exact = twice) :
    (twice.1.mantissa = 0 ∧ roundWithAccuracy .binary64 s m e a = .zero s) ∨
      ∃ hpos, roundWithAccuracy .binary64 s m e a = .finite s twice.1.mantissa twice.2 hpos := by
  subst hone htwo
  by_cases hzero : (shiftToTargetExponent .binary64
      (shiftToTargetExponent .binary64 m e a).1.roundedMantissa
      (shiftToTargetExponent .binary64 m e a).2 .exact).1.mantissa = 0
  · exact .inl ⟨hzero, dif_pos hzero⟩
  · exact .inr ⟨Nat.pos_of_ne_zero hzero, dif_neg hzero⟩

/-- Rounding shifts a mantissa twice, and each time the exponent grows by its bits at most. -/
theorem roundWithAccuracy_within (h : m < 2 ^ bits) :
    Within (max e 0 + (2 * bits + 1 : Nat)) (roundWithAccuracy .binary64 s m e a) := by
  have hfirst := shift_exponent_le (e := e) (a := a) h
  have hmantissa : (shiftToTargetExponent .binary64 m e a).1.mantissa ≤ m := shift_mantissa_le
  generalize hone : shiftToTargetExponent .binary64 m e a = once at hfirst hmantissa
  have hrounded := roundedMantissa_le once.1
  have hlt : once.1.roundedMantissa < 2 ^ (bits + 1) := by
    rw [Nat.pow_succ]
    omega
  have hsecond := shift_exponent_le (e := once.2) (a := .exact) hlt
  rcases roundWithAccuracy_cases (s := s) hone rfl with ⟨-, hround⟩ | ⟨hpos, hround⟩
  · rw [hround]
    exact .zero s
  · rw [hround]
    exact .finite s hpos (by omega)

theorem round_within (h : m < 2 ^ 53) : Within 213 (.round .binary64 s m 0) := by
  have hshift : (0 - Format.binary64.targetExponent (totalExponent m 0)).toNat ≤ 53 := by
    simp only [Format.targetExponent, totalExponent, mantissaBits_binary64, Format.minExponent]
    omega
  simp only [UnpackedFloat.round, UnpackedFloat.decreaseExponent]
  generalize (0 - Format.binary64.targetExponent (totalExponent m 0)).toNat = n at hshift
  have hmantissa : m <<< n < 2 ^ 106 := by
    rw [Nat.shiftLeft_eq]
    calc
      m * 2 ^ n < 2 ^ 53 * 2 ^ n := Nat.mul_lt_mul_of_pos_right h (Nat.two_pow_pos n)
      _ ≤ 2 ^ 53 * 2 ^ 53 := Nat.mul_le_mul_left _ (Nat.pow_le_pow_right (by decide) hshift)
      _ = 2 ^ 106 := by norm_num
  exact (roundWithAccuracy_within hmantissa).mono (by omega)

theorem ofNat_within (h : n < 2 ^ 53) : Within 213 (.ofNat .binary64 n) := by
  unfold UnpackedFloat.ofNat UnpackedFloat.ofInt UnpackedFloat.normalize
  split
  · rename_i hlt
    rw [compare_lt_iff_lt] at hlt
    omega
  · exact .zero _
  · exact round_within h

theorem mul_finite_within {s' : Sign} {hm : 0 < m} {hm' : 0 < m'} (h : m * m' < 2 ^ bits) :
    Within (max (e + e') 0 + (2 * bits + 1 : Nat))
      (.mul .binary64 (.finite s m e hm) (.finite s' m' e' hm')) :=
  roundWithAccuracy_within h

theorem mul_within (hx : Tame j x) (hy : Tame k y) :
    Within (max (j + k) 0 + 213) (.mul .binary64 x y) := by
  cases hx with
  | zero s => cases hy <;> exact .zero _
  | @finite s m e hm he hlt =>
    cases hy with
    | zero s' => exact .zero _
    | @finite s' m' e' hm' he' hlt' =>
      have hproduct : m * m' < 2 ^ 106 := by
        calc
          m * m' < 2 ^ 53 * 2 ^ 53 := Nat.mul_lt_mul'' hlt hlt'
          _ = 2 ^ 106 := by norm_num
      exact (mul_finite_within hproduct).mono (by omega)

-- ---------------------------------------------------------------------------
-- The bits of a float
-- ---------------------------------------------------------------------------

theorem sign_components {F : Format} {E : BitVec F.exponentBits}
    {M : BitVec F.mantissaBitsWithoutImplicit} :
    Sign.ofBitVec (UnpackedFloat.unpackSign (packComponents F s E M)) = s := by
  have hbit : UnpackedFloat.unpackSign (packComponents F s E M) = s.toBitVec := by
    refine BitVec.eq_of_getLsbD_eq fun i hi => ?_
    obtain rfl : i = 0 := Nat.lt_one_iff.mp hi
    change (BitVec.cast _ (BitVec.extractLsb _ _ _)).getLsbD 0 = _
    simp [packComponents, BitVec.getLsbD_append, BitVec.getElem_append]
  rw [hbit]
  cases s <;> rfl

theorem normal_pos {n : Nat} {M : BitVec n} : 0 < (1#1 ++ M).toNat := by simp

/-- A number is unpacked by its three parts. -/
theorem unpack_parts {F : Format} {b : BitVec F.numBits} {E : BitVec F.exponentBits}
    {M : BitVec F.mantissaBitsWithoutImplicit}
    (hs : Sign.ofBitVec (UnpackedFloat.unpackSign b) = s)
    (hE : UnpackedFloat.unpackExponent b = E) (hM : UnpackedFloat.unpackMantissa b = M) :
    UnpackedFloat.unpack F b =
      if E = -1#_ then if M = 0#_ then .infinity s else .notANumber
      else if E = 0#_ then
        if h : M = 0#_ then .zero s
        else .finite s M.toNat (E.toNat - (F.exponentBias + F.mantissaBitsWithoutImplicit) + 1)
          (BitVec.toNat_pos_of_ne_zero h)
      else .finite s (1#1 ++ M).toNat (E.toNat - (F.exponentBias + F.mantissaBitsWithoutImplicit))
        normal_pos := by
  subst hs hE hM
  rfl

theorem unpack_components (s : Sign) {E : BitVec 11} (M : BitVec 52) (hE : E.toNat < 2047)
    (hk : (E.toNat : Int) ≤ k + 1075) (hk0 : 0 ≤ k) :
    Tame k (.unpack .binary64 (packComponents .binary64 s E M)) := by
  have hnormal : (E.toNat : Int) - 1075 ≤ k := by omega
  have hsubnormal : E = 0#11 → (E.toNat : Int) - 1075 + 1 ≤ k := by
    rintro rfl
    simp only [BitVec.toNat_ofNat]
    omega
  have hones : E ≠ -1#11 := by
    rintro rfl
    revert hE
    decide
  have hM : M.toNat < 2 ^ 53 := M.isLt.trans (by decide)
  rw [unpack_parts sign_components UnpackedFloat.unpackExponent_packComponents
    UnpackedFloat.unpackMantissa_packComponents, if_neg hones]
  by_cases hE0 : E = 0#11
  · rw [if_pos hE0]
    by_cases hM0 : M = 0#52
    · rw [dif_pos hM0]
      exact .zero _
    · rw [dif_neg hM0]
      exact .finite _ _ (hsubnormal hE0) hM
  · rw [if_neg hE0]
    exact .finite _ _ hnormal (1#1 ++ M).isLt

/-- A number keeps its bound as the bits of a float, if that is not too large. -/
theorem unpack_pack (h : Within k x) (hk0 : 0 ≤ k) (hk : k ≤ 900) : Tame k (pack x).unpack := by
  cases h with
  | zero s =>
    have hzero : (pack (.zero s)).unpack = .zero s := by cases s <;> rfl
    rw [hzero]
    exact .zero s
  | finite s hm he =>
    unfold Float.Model.unpack Float.Model.pack UnpackedFloat.pack
    simp only [Format.exponentBias]
    norm_num
    split
    · omega
    · split
      · refine unpack_components s _ ?_ ?_ hk0
        · simp
          omega
        · simp
          omega
      · refine unpack_components s _ (by simp) ?_ hk0
        simp
        omega

-- ---------------------------------------------------------------------------
-- From whole numbers
-- ---------------------------------------------------------------------------

/-- Numbers that fit a mantissa are multiplied by a float for one, larger ones are rounded once. -/
theorem ofNat_tame (h : n < 2 ^ 64) : Tame 500 (Float.ofNat n).toModel.unpack := by
  by_cases hsmall : n < 2 ^ 53
  · have hfloat : Float.ofNat n = ⟨pack (.mul .binary64
        (pack (.ofNat .binary64 n.toUInt64.toNat)).unpack
        (Float.exactlyRepresentablePowersOfTen[0]).toModel.unpack)⟩ := by
      unfold Float.ofNat
      exact dif_pos (show n < 2 ^ 53 ∧ 0 ≤ 22 from ⟨hsmall, by decide⟩)
    have hone : (Float.exactlyRepresentablePowersOfTen[0]).toModel.unpack =
        .finite .positive (2 ^ 52) (-52) (by decide) := rfl
    have hword : n.toUInt64.toNat = n := by simpa using Nat.mod_eq_of_lt h
    have hunit : Tame 0 (.finite .positive (2 ^ 52) (-52) (by decide)) :=
      .finite _ _ (by decide) (by decide)
    rw [hfloat, hone, hword]
    have hn : Tame 213 (pack (.ofNat .binary64 n)).unpack :=
      unpack_pack (ofNat_within hsmall) (by decide) (by decide)
    exact unpack_pack ((mul_within hn hunit).mono (by decide)) (by decide) (by decide)
  · have hfloat : Float.ofNat n = ⟨pack (.ofScientific .binary64 n 0)⟩ := by
      unfold Float.ofNat
      exact dif_neg fun h' => hsmall h'.1
    have hpos : n ≠ 0 := by
      rintro rfl
      exact hsmall (by decide)
    have hproduct : (n <<< Format.binary64.mantissaBits) * 10 ^ (0 : Int).toNat < 2 ^ 117 := by
      simp only [mantissaBits_binary64, Nat.shiftLeft_eq, Int.toNat_zero]
      omega
    rw [hfloat]
    refine unpack_pack ?_ (by decide) (by decide)
    unfold UnpackedFloat.ofScientific
    rw [dif_neg hpos, if_neg (by decide), if_neg (by simp), if_pos (by decide)]
    refine (mul_finite_within hproduct).mono ?_
    simp [mantissaBits_binary64]

/-- Whole numbers of 64 bits, with a sign or without, are finite as floats. -/
theorem ofInt_isFinite {n : Int} (hlo : -2 ^ 63 ≤ n) (hhi : n < 2 ^ 64) :
    (Float.ofInt n).isFinite := by
  cases n with
  | ofNat n =>
    have hlt : (n : Int) < 2 ^ 64 := hhi
    exact (ofNat_tame (n := n) (by omega)).isFinite
  | negSucc n =>
    have hlt : n.succ < 2 ^ 64 := by omega
    have hneg : Tame 500 (pack (Float.ofNat n.succ).toModel.unpack.neg).unpack :=
      unpack_pack (ofNat_tame hlt).neg (by decide) (by decide)
    exact hneg.isFinite

end Workflow.Decimal
