import Mathlib.Algebra.Order.Field.Power
import Mathlib.Tactic.Ring
import Workflow.Proofs.Decimal.Whole

/-!
# What floats stand for

A finite float stands for a rational number. Rounding never goes below a number that a float holds:
where the exact result of an operation is at least such a number, so is the float. This bounds sums,
differences and products of floats from below without a word on the error.
-/

namespace Workflow.Decimal

open Float.Model
open Float.Model.UnpackedFloat (Sign ExtendedMantissa packComponents shiftToExponent
  shiftToTargetExponent roundWithAccuracy)

variable {f g : UnpackedFloat} {s : Sign} {m k n M : Nat} {e t E : Int} {v w : ℚ}

-- ---------------------------------------------------------------------------
-- Mantissas and exponents
-- ---------------------------------------------------------------------------

def size (m : Nat) (e : Int) : ℚ := m * 2 ^ e

/-- The mantissa and the exponent of a float as it is kept: the mantissa fills its bits, unless the
exponent is the least one. -/
structure Held (m : Nat) (e : Int) : Prop where
  lt : m < 2 ^ 53
  least : -1074 ≤ e
  full : 2 ^ 52 ≤ m ∨ e = -1074

/-- A positive number whose mantissa and exponent are not too large and too small for a float. -/
def Representable (v : ℚ) : Prop := ∃ m e, 0 < m ∧ m < 2 ^ 53 ∧ -1074 ≤ e ∧ v = size m e

theorem size_pos (hm : 0 < m) : 0 < size m e := by
  unfold size
  positivity

theorem size_shift : size (m * 2 ^ n) e = size m (e + n) := by
  simp only [size, Nat.cast_mul, Nat.cast_pow, Nat.cast_ofNat]
  rw [zpow_add₀ two_ne_zero, zpow_natCast]
  ring

theorem size_le_size : size m e ≤ size k e ↔ m ≤ k := by
  unfold size
  rw [mul_le_mul_iff_left₀ (by positivity), Nat.cast_le]

theorem size_lt_of_lt (hm : m < 2 ^ 53) (hk : 2 ^ 52 ≤ k) (he : e < t) : size m e < size k t := by
  obtain ⟨n, rfl⟩ : ∃ n : Nat, t = e + (n + 1 : Nat) := ⟨(t - e - 1).toNat, by omega⟩
  have hpow : k * 2 ≤ k * 2 ^ (n + 1) :=
    Nat.mul_le_mul_left k (Nat.pow_le_pow_right (n := 2) (i := 1) (by decide) (by omega))
  rw [← size_shift, ← not_le, size_le_size]
  omega

theorem Representable.pos (h : Representable v) : 0 < v := by
  obtain ⟨m, e, hm, -, -, rfl⟩ := h
  exact size_pos hm

theorem Representable.mantissa_pos (h : Representable v) (hle : v ≤ size m e) : 0 < m := by
  by_contra hm
  obtain rfl : m = 0 := by omega
  exact absurd (h.pos.trans_le hle) (by simp [size])

/-- Exponents have no upper bound here, so the number may be scaled up. -/
theorem Representable.scale (h : Representable v) (n : Nat) : Representable (2 ^ n * v) := by
  obtain ⟨m, e, hm, hlt, he, rfl⟩ := h
  refine ⟨m, e + n, hm, hlt, by omega, ?_⟩
  rw [← size_shift]
  simp only [size, Nat.cast_mul, Nat.cast_pow, Nat.cast_ofNat]
  ring

-- ---------------------------------------------------------------------------
-- Rounding
-- ---------------------------------------------------------------------------

/-- The exponent that a mantissa is shifted to. -/
def target (m : Nat) (e : Int) : Int := max (m.log2 + 1 + e - 53) (-1074)

theorem shifted_mantissa : (shiftToTargetExponent .binary64 m e .exact).1.mantissa =
    m / 2 ^ (target m e - e).toNat := shiftRight_mantissa _ _

theorem shifted_exponent : (shiftToTargetExponent .binary64 m e .exact).2 =
    e + (target m e - e).toNat := rfl

theorem le_roundedMantissa (em : ExtendedMantissa) : em.mantissa ≤ em.roundedMantissa := by
  rcases em with ⟨m, r, s⟩
  cases r <;> cases s <;> simp [ExtendedMantissa.roundedMantissa, ExtendedMantissa.accuracy,
    UnpackedFloat.Accuracy.roundToNearestEven]

/-- What is left of the mantissa fits, and it fills its bits above the least exponent. -/
theorem held_shifted (hm : 0 < m) (he : e ≤ target m e) :
    Held (m / 2 ^ (target m e - e).toNat) (target m e) := by
  have hlo := Nat.log2_self_le hm.ne'
  have hhi := Nat.lt_log2_self (n := m)
  generalize hn : (target m e - e).toNat = n
  unfold target at *
  refine ⟨?_, le_max_right _ _, ?_⟩
  · rw [Nat.div_lt_iff_lt_mul (Nat.two_pow_pos n), ← Nat.pow_add]
    exact hhi.trans_le (Nat.pow_le_pow_right (by decide) (by omega))
  · rcases le_total ((m.log2 : Int) + 1 + e - 53) (-1074) with hle | hle
    · exact .inr (max_eq_right hle)
    · rw [max_eq_left hle] at he hn
      refine .inl ((Nat.le_div_iff_mul_le (Nat.two_pow_pos n)).mpr ?_)
      rw [← Nat.pow_add]
      exact (Nat.pow_le_pow_right (by decide) (by omega)).trans hlo

/-- A mantissa that is rounded up to a full power of two moves to the next exponent. -/
theorem held_rounded {r : Nat} (h : Held m t) (hr : 0 < r) (hm : m ≤ r) (hm' : r ≤ m + 1) :
    Held (r / 2 ^ (target r t - t).toNat) (t + (target r t - t).toNat) ∧
      size (r / 2 ^ (target r t - t).toNat) (t + (target r t - t).toNat) = size r t := by
  obtain ⟨hlt, hleast, hfull⟩ := h
  by_cases hr' : r < 2 ^ 53
  · have hlog : r.log2 < 53 := (Nat.log2_lt hr.ne').mpr hr'
    have hn : (target r t - t).toNat = 0 := by
      unfold target
      omega
    simp only [hn, pow_zero, Nat.div_one, Nat.cast_zero, add_zero, and_true]
    exact ⟨hr', hleast, hfull.imp_left fun hfull => hfull.trans hm⟩
  · obtain rfl : r = 2 ^ 53 := by omega
    have hn : (target (2 ^ 53) t - t).toNat = 1 := by
      unfold target
      rw [Nat.log2_two_pow]
      omega
    rw [hn]
    refine ⟨⟨by decide, by omega, .inl (by decide)⟩, ?_⟩
    rw [← size_shift]
    rfl

/-- The magnitude of a number is at least `v`. -/
inductive Reaches (s : Sign) (v : ℚ) : UnpackedFloat → Prop
  | infinity : Reaches s v (.infinity s)
  | finite {m : Nat} {e : Int} (hm : 0 < m) (held : Held m e) (hle : v ≤ size m e) :
    Reaches s v (.finite s m e hm)

/-- A representable number below the exact one is not above what is left of the mantissa. -/
theorem le_size_shifted (h : Representable v) (hv : v ≤ size m e) (hm : 0 < m)
    (he : e ≤ target m e) : v ≤ size (m / 2 ^ (target m e - e).toNat) (target m e) := by
  obtain ⟨M, E, hM, hlt, hE, rfl⟩ := h
  obtain ⟨-, -, hfull⟩ := held_shifted hm he
  rcases le_or_gt (target m e) E with hle | hgt
  · obtain ⟨j, rfl⟩ : ∃ j : Nat, E = target m e + j := ⟨(E - target m e).toNat, by omega⟩
    rw [← size_shift] at hv ⊢
    obtain ⟨n, hn⟩ : ∃ n : Nat, target m e = e + n := ⟨(target m e - e).toNat, by omega⟩
    have hshift : (target m e - e).toNat = n := by omega
    rw [hshift, size_le_size, Nat.le_div_iff_mul_le (Nat.two_pow_pos n)]
    rwa [hn, ← size_shift, size_le_size] at hv
  · exact (size_lt_of_lt hlt (hfull.resolve_right (by omega)) hgt).le

theorem roundWithAccuracy_reaches (h : Representable v) (hv : v ≤ size m e) (hm : 0 < m)
    (he : e ≤ target m e) : Reaches s v (roundWithAccuracy .binary64 s m e .exact) := by
  have hheld := held_shifted hm he
  have hreach := le_size_shifted h hv hm he
  have hexponent : (shiftToTargetExponent .binary64 m e .exact).2 = target m e := by
    rw [shifted_exponent]
    omega
  have hlo := le_roundedMantissa (shiftToTargetExponent .binary64 m e .exact).1
  have hhi := roundedMantissa_le (shiftToTargetExponent .binary64 m e .exact).1
  have hcases := roundWithAccuracy_cases (s := s) (m := m) (e := e) (a := .exact) rfl rfl
  rw [hexponent] at hcases
  generalize (shiftToTargetExponent .binary64 m e .exact).1.roundedMantissa = r at *
  rw [shifted_mantissa] at hlo hhi
  have hreach : v ≤ size r (target m e) := hreach.trans (size_le_size.mpr hlo)
  obtain ⟨hheld, hsize⟩ := held_rounded hheld (h.mantissa_pos hreach) hlo hhi
  rw [← hsize, ← shifted_exponent, ← shifted_mantissa] at hreach
  rw [← shifted_exponent, ← shifted_mantissa] at hheld
  rcases hcases with ⟨hzero, -⟩ | ⟨hpos, hround⟩
  · exact absurd hzero (h.mantissa_pos hreach).ne'
  · rw [hround]
    exact .finite hpos hheld hreach

theorem target_shift (hm : 0 < m) : target (m * 2 ^ n) (e - n) = target m e := by
  have hlog : (m * 2 ^ n).log2 = m.log2 + n := by
    rw [Nat.log2_eq_iff (by positivity)]
    rw [Nat.add_right_comm, Nat.pow_add, Nat.pow_add]
    exact ⟨Nat.mul_le_mul_right _ (Nat.log2_self_le hm.ne'),
      Nat.mul_lt_mul_of_pos_right Nat.lt_log2_self (Nat.two_pow_pos n)⟩
  unfold target
  rw [hlog]
  congr 1
  push_cast
  ring

theorem round_reaches (h : Representable v) (hv : v ≤ size m e) :
    Reaches s v (.round .binary64 s m e) := by
  have hm := h.mantissa_pos hv
  have hround : UnpackedFloat.round .binary64 s m e = roundWithAccuracy .binary64 s
      (m * 2 ^ (e - target m e).toNat) (e - (e - target m e).toNat) .exact := by
    rw [← Nat.shiftLeft_eq]
    rfl
  rw [hround]
  refine roundWithAccuracy_reaches h (hv.trans_eq ?_) (by positivity) ?_
  · rw [size_shift, sub_add_cancel]
  · rw [target_shift hm]
    omega

/-- A whole number on an exponent is rounded with its sign. -/
theorem normalize_reaches {z : Int} (h : Representable v) (s' : Sign)
    (hv : v ≤ (s.apply z : Int) * 2 ^ e) : Reaches s v (.normalize .binary64 z e s') := by
  have hpos : 0 < s.apply z := by
    by_contra hle
    have hneg : ((s.apply z : Int) : ℚ) * 2 ^ e ≤ 0 :=
      mul_nonpos_of_nonpos_of_nonneg (by exact_mod_cast not_lt.mp hle) (by positivity)
    exact absurd (h.pos.trans_le hv) hneg.not_gt
  have hsize : v ≤ size (s.apply z).toNat e := by
    rwa [size, ← Int.cast_natCast (R := ℚ), Int.toNat_of_nonneg hpos.le]
  cases s with
  | positive =>
    have hz : compare z 0 = .gt := compare_gt_iff_gt.mpr hpos
    simp only [UnpackedFloat.normalize, hz]
    exact round_reaches h hsize
  | negative =>
    have hz : compare z 0 = .lt := compare_lt_iff_lt.mpr (neg_pos.mp hpos)
    simp only [UnpackedFloat.normalize, hz]
    exact round_reaches h hsize

-- ---------------------------------------------------------------------------
-- The bits of a float
-- ---------------------------------------------------------------------------

/-- A number as it comes out of the bits of a float. -/
inductive Canonical : UnpackedFloat → Prop
  | notANumber : Canonical .notANumber
  | infinity (s : Sign) : Canonical (.infinity s)
  | zero (s : Sign) : Canonical (.zero s)
  | finite (s : Sign) {m : Nat} {e : Int} (hm : 0 < m) (held : Held m e) :
    Canonical (.finite s m e hm)

theorem unpack_canonical (x : Float) : Canonical x.toModel.unpack := by
  unfold Float.Model.unpack
  generalize x.toModel.toBits.toBitVec = bits
  change BitVec Format.binary64.numBits at bits
  rw [unpack_parts rfl rfl rfl]
  generalize UnpackedFloat.unpackExponent bits = E
  generalize UnpackedFloat.unpackMantissa bits = M
  by_cases hones : E = -1#11
  · rw [if_pos hones]
    by_cases hM0 : M = 0#52
    · rw [if_pos hM0]
      exact .infinity _
    · rw [if_neg hM0]
      exact .notANumber
  rw [if_neg hones]
  by_cases hE0 : E = 0#11
  · rw [if_pos hE0]
    by_cases hM0 : M = 0#52
    · rw [dif_pos hM0]
      exact .zero _
    · rw [dif_neg hM0]
      subst hE0
      exact .finite _ _ ⟨M.isLt.trans (by decide), le_rfl, .inr rfl⟩
  · rw [if_neg hE0]
    have he : (E.toNat : Int) - (Format.binary64.exponentBias +
        Format.binary64.mantissaBitsWithoutImplicit) = E.toNat - 1075 := rfl
    have hpos : E.toNat ≠ 0 := fun h => hE0 (BitVec.eq_of_toNat_eq (by simpa using h))
    refine .finite _ _ ⟨(1#1 ++ M).isLt, by omega, .inl ?_⟩
    rw [BitVec.toNat_append]
    exact Nat.left_le_or

theorem finite_congr {m' : Nat} {e' : Int} {hm : 0 < m} {hm' : 0 < m'} (h : m = m') (h' : e = e') :
    UnpackedFloat.finite s m e hm = .finite s m' e' hm' := by
  subst h h'
  rfl

theorem unpack_normal {E : BitVec 11} (M : BitVec 52) (h0 : 0 < E.toNat) (h1 : E.toNat < 2047) :
    UnpackedFloat.unpack .binary64 (packComponents .binary64 s E M) =
      .finite s (2 ^ 52 + M.toNat) (E.toNat - 1075) (Nat.add_pos_left (Nat.two_pow_pos 52) _) := by
  have hzero : E ≠ 0#11 := by
    rintro rfl
    exact absurd h0 (by decide)
  have hones : E ≠ -1#11 := by
    rintro rfl
    exact absurd h1 (by decide)
  rw [unpack_parts sign_components UnpackedFloat.unpackExponent_packComponents
    UnpackedFloat.unpackMantissa_packComponents, if_neg hones, if_neg hzero]
  refine finite_congr ?_ rfl
  rw [BitVec.toNat_append]
  exact (Nat.two_pow_add_eq_or_of_lt M.isLt 1).symm

theorem unpack_subnormal {M : BitVec 52} (hM : 0 < M.toNat) :
    UnpackedFloat.unpack .binary64 (packComponents .binary64 s 0#11 M) =
      .finite s M.toNat (-1074) hM := by
  have hzero : M ≠ 0#52 := by
    rintro rfl
    exact absurd hM (by decide)
  rw [unpack_parts sign_components UnpackedFloat.unpackExponent_packComponents
    UnpackedFloat.unpackMantissa_packComponents, if_neg (by decide), if_pos rfl, dif_neg hzero]
  exact finite_congr rfl rfl

theorem unpack_pack_bits {hm : 0 < m} : (pack (.finite s m e hm)).unpack = .unpack .binary64
    (if 2 ^ 11 ≤ (e + 1075).toNat + 1 then UnpackedFloat.packedInfinity .binary64 s
    else if m.log2 + 1 = 53 then
      packComponents .binary64 s (BitVec.ofNat 11 (e + 1075).toNat) (BitVec.ofNat 52 m)
    else packComponents .binary64 s 0#11 (BitVec.ofNat 52 m)) := by
  have hbiased : (e + Format.binary64.exponentBias +
      Format.binary64.mantissaBitsWithoutImplicit).toNat = (e + 1075).toNat := by
    simp [Format.exponentBias, add_assoc]
  rw [← hbiased]
  rfl

/-- The bits of a float keep a number as it is or, if it is too large, as infinity. -/
theorem unpack_pack_held (hm : 0 < m) (h : Held m e) : (pack (.finite s m e hm)).unpack =
    if e ≤ 971 then .finite s m e hm else .infinity s := by
  obtain ⟨hlt, hleast, hfull⟩ := h
  have hfill : m.log2 + 1 = 53 ↔ 2 ^ 52 ≤ m := by
    have hlog := (Nat.log2_lt hm.ne').mpr hlt
    rw [← not_iff_not, not_le, ← Nat.log2_lt hm.ne']
    omega
  by_cases he : e ≤ 971
  · rw [if_pos he]
    by_cases hbits : m.log2 + 1 = 53
    · have hfull := hfill.mp hbits
      have hE : (BitVec.ofNat 11 (e + 1075).toNat).toNat = (e + 1075).toNat := by
        rw [BitVec.toNat_ofNat, Nat.mod_eq_of_lt (by omega)]
      rw [unpack_pack_bits, if_neg (by omega), if_pos hbits, unpack_normal _ (by omega) (by omega)]
      refine finite_congr ?_ (by omega)
      rw [BitVec.toNat_ofNat]
      omega
    · have hsmall := (not_congr hfill).mp hbits
      have hM : (BitVec.ofNat 52 m).toNat = m := by
        rw [BitVec.toNat_ofNat, Nat.mod_eq_of_lt (by omega)]
      rw [unpack_pack_bits, if_neg (by omega), if_neg hbits, unpack_subnormal (by omega)]
      exact finite_congr hM (hfull.resolve_left hsmall).symm
  · rw [if_neg he, unpack_pack_bits, if_pos (by omega)]
    cases s <;> rfl

theorem Reaches.pack (h : Reaches s v f) : Reaches s v (pack f).unpack := by
  cases h with
  | infinity => cases s <;> exact .infinity
  | @finite m e hm held hle =>
    rw [unpack_pack_held hm held]
    by_cases he : e ≤ 971
    · rw [if_pos he]
      exact .finite hm held hle
    · rw [if_neg he]
      exact .infinity

-- ---------------------------------------------------------------------------
-- The number of a float
-- ---------------------------------------------------------------------------

/-- The number with the sign. -/
def bySign (s : Sign) (q : ℚ) : ℚ :=
  match s with
  | .positive => q
  | .negative => -q

/-- The number that is unpacked; zero if there is none. -/
def exact : UnpackedFloat → ℚ
  | .finite s m e _ => bySign s (size m e)
  | .zero _ | .infinity _ | .notANumber => 0

/-- The number that a float stands for. -/
def value (x : Float) : ℚ := exact x.toModel.unpack

theorem bySign_zero (s : Sign) : bySign s 0 = 0 := by
  cases s with
  | negative => exact neg_zero
  | positive => rfl

theorem bySign_bySign (s : Sign) (q : ℚ) : bySign s (bySign s q) = q := by
  cases s with
  | negative => exact neg_neg q
  | positive => rfl

theorem bySign_add (s : Sign) (p q : ℚ) : bySign s (p + q) = bySign s p + bySign s q := by
  cases s with
  | negative => exact neg_add p q
  | positive => rfl

theorem bySign_mul (s : Sign) (p q : ℚ) : bySign s (p * q) = bySign s p * q := by
  cases s with
  | negative => exact (neg_mul p q).symm
  | positive => rfl

theorem cast_apply (s : Sign) (z : Int) : ((s.apply z : Int) : ℚ) = bySign s z := by
  cases s with
  | negative => exact Int.cast_neg z
  | positive => rfl

/-- The float is at least `v`; it may be infinite. -/
def AtLeast (v : ℚ) (x : Float) : Prop := Reaches .positive v x.toModel.unpack

variable {x y : Float}

theorem isFinite_iff : x.isFinite ↔ x.toModel.unpack.isFinite := Iff.rfl

theorem le_iff : x ≤ y ↔ x.toModel.unpack.le y.toModel.unpack = true := decide_eq_true_iff

theorem lt_iff : x < y ↔ x.toModel.unpack.lt y.toModel.unpack = true := decide_eq_true_iff

theorem exists_held (hx : x.isFinite) (hpos : 0 < value x) : ∃ m e, ∃ hm : 0 < m,
    x.toModel.unpack = .finite .positive m e hm ∧ Held m e ∧ value x = size m e := by
  rw [isFinite_iff] at hx
  have hcanonical := unpack_canonical x
  unfold value at *
  generalize x.toModel.unpack = f at *
  cases hcanonical with
  | notANumber => cases hx
  | infinity => cases hx
  | zero s => exact absurd hpos (lt_irrefl _)
  | @finite s m e hm held =>
    cases s with
    | positive => exact ⟨m, e, hm, rfl, held, rfl⟩
    | negative => exact absurd (size_pos hm) (neg_pos.mp hpos).not_gt

theorem unpack_zero : (0 : Float).toModel.unpack = .zero .positive := rfl

/-- The sign of a finite float is that of its number. -/
theorem value_pos (hx : x.isFinite) (h : 0 < x) : 0 < value x := by
  rw [lt_iff, unpack_zero] at h
  rw [isFinite_iff] at hx
  unfold value
  generalize x.toModel.unpack = f at *
  cases f with
  | notANumber => cases hx
  | infinity => cases hx
  | zero => cases h
  | @finite s m e hm =>
    cases s with
    | positive => exact size_pos hm
    | negative => cases h

theorem atLeast_value (hx : x.isFinite) (hpos : 0 < value x) : AtLeast (value x) x := by
  obtain ⟨m, e, hm, hf, held, hv⟩ := exists_held hx hpos
  rw [AtLeast, hf]
  exact .finite hm held hv.le

theorem representable_value (hx : x.isFinite) (hpos : 0 < value x) : Representable (value x) := by
  obtain ⟨m, e, hm, -, held, hv⟩ := exists_held hx hpos
  exact ⟨m, e, hm, held.lt, held.least, hv⟩

-- ---------------------------------------------------------------------------
-- Operations
-- ---------------------------------------------------------------------------

theorem unpack_add (x y : Float) : (x + y).toModel.unpack =
    (pack (.add .binary64 x.toModel.unpack y.toModel.unpack)).unpack := rfl

theorem unpack_sub (x y : Float) : (x - y).toModel.unpack =
    (pack (.sub .binary64 x.toModel.unpack y.toModel.unpack)).unpack := rfl

theorem unpack_mul (x y : Float) : (x * y).toModel.unpack =
    (pack (.mul .binary64 x.toModel.unpack y.toModel.unpack)).unpack := rfl

theorem unpack_abs (x : Float) : x.abs.toModel.unpack = (pack x.toModel.unpack.abs).unpack := rfl

/-- The product of two kept mantissas has more bits than fit, or its exponent is below the least. -/
theorem le_target_mul {m' : Nat} {e' : Int} (hm : 0 < m) (hm' : 0 < m') (h : Held m e)
    (h' : Held m' e') : e + e' ≤ target (m * m') (e + e') := by
  have hpos := Nat.mul_pos hm hm'
  have hlog (hle : 2 ^ 52 ≤ m * m') : 52 ≤ (m * m').log2 := by
    rw [← not_lt, Nat.log2_lt hpos.ne']
    exact hle.not_gt
  unfold target
  rcases h.full, h'.full with ⟨hfull | he, hfull' | he'⟩
  · have := hlog (hfull.trans (Nat.le_mul_of_pos_right m hm'))
    omega
  · have := hlog (hfull.trans (Nat.le_mul_of_pos_right m hm'))
    omega
  · have := hlog (hfull'.trans (Nat.le_mul_of_pos_left m' hm))
    omega
  · omega

theorem mul_reaches {m' : Nat} {e' : Int} {hm : 0 < m} {hm' : 0 < m'}
    (h : Representable v) (hv : v ≤ size m e * size m' e')
    (he : e + e' ≤ target (m * m') (e + e')) :
    Reaches .positive v
      (.mul .binary64 (.finite .positive m e hm) (.finite .positive m' e' hm')) := by
  refine roundWithAccuracy_reaches h (hv.trans_eq ?_) (Nat.mul_pos hm hm') he
  simp only [size, Nat.cast_mul, zpow_add₀ (two_ne_zero (α := ℚ))]
  ring

theorem AtLeast.mul (hx : AtLeast v x) (hy : AtLeast w y) (hw : 0 < w) {u : ℚ}
    (h : Representable u) (hu : u ≤ v * w) : AtLeast u (x * y) := by
  rw [AtLeast, unpack_mul]
  refine Reaches.pack ?_
  unfold AtLeast at *
  generalize x.toModel.unpack = f at *
  generalize y.toModel.unpack = g at *
  cases hx with
  | infinity =>
    cases hy with
    | infinity => exact .infinity
    | finite => exact .infinity
  | @finite m e hm held hle =>
    cases hy with
    | infinity => exact .infinity
    | @finite m' e' hm' held' hle' =>
      have hproduct : v * w ≤ size m e * size m' e' := mul_le_mul hle hle' hw.le (size_pos hm).le
      exact mul_reaches h (hu.trans hproduct) (le_target_mul hm hm' held held')

/-- Two numbers are added on the smaller one of their exponents. -/
theorem exact_aligned (hm : 0 < m) (h : t ≤ e) :
    ((s.apply (m <<< (e - t).toNat : Nat) : Int) : ℚ) * 2 ^ t = exact (.finite s m e hm) := by
  have hsize : ((m <<< (e - t).toNat : Nat) : ℚ) * 2 ^ t = size m e := by
    rw [Nat.shiftLeft_eq, ← size, size_shift, Int.toNat_of_nonneg (sub_nonneg.mpr h),
      add_sub_cancel]
  rw [cast_apply, ← bySign_mul, Int.cast_natCast, hsize]
  rfl

theorem add_reaches (hcanonical : Canonical f) (hf : f.isFinite) (hg : Reaches s w g)
    (h : Representable v) (hv : v ≤ bySign s (exact f) + w) :
    Reaches s v (.add .binary64 f g) := by
  cases hcanonical with
  | notANumber => cases hf
  | infinity => cases hf
  | zero =>
    change v ≤ bySign s 0 + w at hv
    rw [bySign_zero, zero_add] at hv
    cases hg with
    | infinity => exact .infinity
    | finite hm held hle => exact .finite hm held (hv.trans hle)
  | @finite s' m e hm held =>
    cases hg with
    | infinity => exact .infinity
    | @finite m' e' hm' held' hle =>
      refine normalize_reaches h _ ?_
      have hsize : bySign s (exact (.finite s m' e' hm')) = size m' e' := bySign_bySign s _
      rw [cast_apply, ← bySign_mul, Int.cast_add, add_mul, bySign_add,
        exact_aligned hm (min_le_left e e'), exact_aligned hm' (min_le_right e e'), hsize]
      exact hv.trans (by gcongr)

theorem sub_eq_add (f g : UnpackedFloat) :
    UnpackedFloat.sub .binary64 f g = .add .binary64 f g.neg := by
  have happly (s : Sign) (z : Int) : (-s).apply z = -s.apply z := by
    cases s with
    | negative => exact (neg_neg z).symm
    | positive => rfl
  cases f with
  | finite s m e hm =>
    cases g with
    | finite s' m' e' hm' =>
      have hmantissa : s.apply (m <<< (e - min e e').toNat) - s'.apply (m' <<< (e' - min e e').toNat) =
          s.apply (m <<< (e - min e e').toNat) + (-s').apply (m' <<< (e' - min e e').toNat) := by
        rw [happly, Int.sub_eq_add_neg]
      exact congrArg (UnpackedFloat.normalize .binary64 · (min e e') .positive) hmantissa
    | _ => rfl
  | _ => cases g <;> rfl

theorem AtLeast.add (hx : x.isFinite) (hy : AtLeast w y) (h : Representable v)
    (hv : v ≤ value x + w) : AtLeast v (x + y) := by
  rw [AtLeast, unpack_add]
  exact (add_reaches (unpack_canonical x) hx hy h hv).pack

/-- The difference to something larger, with the sign that it has. -/
theorem AtLeast.sub (hx : x.isFinite) (hy : AtLeast w y) (h : Representable v)
    (hv : v ≤ w - value x) : Reaches .negative v (x - y).toModel.unpack := by
  have hneg : Reaches .negative w y.toModel.unpack.neg := by
    unfold AtLeast at hy
    generalize y.toModel.unpack = g at *
    cases hy with
    | infinity => exact .infinity
    | finite hm held hle => exact .finite hm held hle
  rw [unpack_sub, sub_eq_add]
  refine (add_reaches (unpack_canonical x) hx hneg h (hv.trans_eq ?_)).pack
  exact sub_eq_neg_add w (value x)

theorem AtLeast.abs (h : Reaches s v x.toModel.unpack) : AtLeast v x.abs := by
  rw [AtLeast, unpack_abs]
  refine Reaches.pack ?_
  generalize x.toModel.unpack = f at *
  cases h with
  | infinity => exact .infinity
  | finite hm held hle => exact .finite hm held hle

/-- Numbers that are kept are ordered by their exponents first. -/
theorem AtLeast.le (h : AtLeast v y) (hx : x.isFinite) (hpos : 0 < value x) (hv : value x ≤ v) :
    x ≤ y := by
  obtain ⟨m, e, hm, hf, held, hvalue⟩ := exists_held hx hpos
  rw [le_iff, hf]
  unfold AtLeast at h
  generalize y.toModel.unpack = g at *
  cases h with
  | infinity => rfl
  | @finite m' e' hm' held' hle =>
    have hle : size m e ≤ size m' e' := hvalue ▸ hv.trans hle
    change ((compare e e').then (compare m m')).isLE
    rcases lt_trichotomy e e' with hlt | rfl | hgt
    · rw [compare_lt_iff_lt.mpr hlt]
      rfl
    · rw [compare_eq_iff_eq.mpr rfl]
      exact Nat.isLE_compare.mpr (size_le_size.mp hle)
    · have hfull := held.full.resolve_right (by have := held'.least; omega)
      exact absurd hle (size_lt_of_lt held'.lt hfull hgt).not_ge

-- ---------------------------------------------------------------------------
-- Infinite numbers and numbers that are none
-- ---------------------------------------------------------------------------

theorem unpack_pack_infinity (s : Sign) : (pack (.infinity s)).unpack = .infinity s := by
  cases s <;> rfl

theorem isInf_iff : x.isInf ↔ ∃ s, x.toModel.unpack = .infinity s := by
  change x.toModel.unpack.isInf = true ↔ _
  cases x.toModel.unpack with
  | infinity s => exact iff_of_true rfl ⟨s, rfl⟩
  | _ => exact iff_of_false Bool.false_ne_true (by rintro ⟨s, ⟨⟩⟩)

theorem isInf_positive (hx : x.isInf) (h : 0 < x) : x.toModel.unpack = .infinity .positive := by
  obtain ⟨s, hs⟩ := isInf_iff.mp hx
  rw [lt_iff, unpack_zero, hs] at h
  cases s with
  | positive => exact hs
  | negative => cases h

theorem infinity_add (hf : f.isFinite) :
    UnpackedFloat.add .binary64 (.infinity s) f = .infinity s := by
  cases f with
  | notANumber => cases hf
  | infinity => cases hf
  | zero => rfl
  | finite => rfl

theorem sub_infinity (hf : f.isFinite) :
    UnpackedFloat.sub .binary64 f (.infinity s) = .infinity (-s) := by
  cases f with
  | notANumber => cases hf
  | infinity => cases hf
  | zero => rfl
  | finite => rfl

theorem unpack_add_infinity (hx : x.toModel.unpack = .infinity s) (hy : y.isFinite) :
    (x + y).toModel.unpack = .infinity s := by
  rw [unpack_add, hx, infinity_add hy, unpack_pack_infinity]

theorem AtLeast.infinity_add (hy : AtLeast v y) (hx : x.toModel.unpack = .infinity .positive) :
    (x + y).toModel.unpack = .infinity .positive := by
  rw [unpack_add, hx]
  unfold AtLeast at hy
  generalize y.toModel.unpack = g at *
  cases hy <;> exact unpack_pack_infinity .positive

theorem unpack_sub_infinity (hx : x.isFinite) (hy : y.toModel.unpack = .infinity s) :
    Reaches (-s) v (x - y).toModel.unpack := by
  rw [unpack_sub, hy, sub_infinity hx, unpack_pack_infinity]
  exact .infinity

theorem unpack_pack_notANumber : (pack .notANumber).unpack = .notANumber := rfl

theorem isNaN_iff : x.isNaN ↔ x.toModel.unpack = .notANumber := by
  change x.toModel.unpack.isNaN ↔ _
  cases x.toModel.unpack with
  | notANumber => exact iff_of_true rfl rfl
  | _ => exact iff_of_false Bool.false_ne_true (by rintro ⟨⟩)

theorem add_isNaN (hx : x.isNaN) (y : Float) : (x + y).isNaN := by
  rw [isNaN_iff] at *
  rw [unpack_add, hx]
  cases y.toModel.unpack <;> exact unpack_pack_notANumber

theorem sub_isNaN (x : Float) (hy : y.isNaN) : (x - y).isNaN := by
  rw [isNaN_iff] at *
  rw [unpack_sub, hy]
  cases x.toModel.unpack <;> exact unpack_pack_notANumber

theorem abs_isNaN (hx : x.isNaN) : x.abs.isNaN := by
  rw [isNaN_iff] at *
  rw [unpack_abs, hx]
  exact unpack_pack_notANumber

/-- What is no number is not above anything. -/
theorem not_le_of_isNaN (x : Float) (hy : y.isNaN) : ¬ x ≤ y := by
  rw [isNaN_iff] at hy
  rw [le_iff, hy]
  cases x.toModel.unpack <;> exact Bool.false_ne_true

-- ---------------------------------------------------------------------------
-- From whole numbers
-- ---------------------------------------------------------------------------

theorem representable_two_pow (n : Nat) : Representable (2 ^ n) := by
  refine ⟨1, n, by decide, by decide, by omega, ?_⟩
  simp [size]

/-- A large whole number is rounded once, and not below a power of two. -/
theorem ofNat_atLeast (h : 2 ^ 63 ≤ n) : AtLeast (2 ^ 63) (Float.ofNat n) := by
  have hfloat : Float.ofNat n = ⟨pack (.ofScientific .binary64 n 0)⟩ := by
    unfold Float.ofNat
    exact dif_neg fun h' => absurd h'.1 (by omega)
  rw [AtLeast, hfloat]
  refine Reaches.pack ?_
  unfold UnpackedFloat.ofScientific
  rw [dif_neg (by omega), if_neg (by decide), if_neg (by simp), if_pos (by decide)]
  have hbits : Format.binary64.mantissaBits = 53 := rfl
  refine mul_reaches (representable_two_pow 63) ?_ ?_
  · have hfactors : size n (-53 + 53) * size (10 ^ (0 : Int).toNat) 0 = n := by simp [size]
    rw [hbits, Nat.shiftLeft_eq, size_shift]
    exact (by exact_mod_cast h : (2 ^ 63 : ℚ) ≤ n).trans_eq hfactors.symm
  · rw [hbits, Nat.shiftLeft_eq, Int.toNat_zero, pow_zero, Nat.mul_one]
    have hlog : 53 ≤ (n * 2 ^ 53).log2 := by
      rw [← not_lt, Nat.log2_lt (by omega)]
      omega
    unfold target
    omega

end Workflow.Decimal
