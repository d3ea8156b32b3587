import MicroTbx.Foundation.BitPolynomial
import MicroTbx.Foundation.Lfsr
import Mathlib.Dynamics.PeriodicPts.Lemmas
import Mathlib.Data.Nat.Prime.Basic
import Mathlib.Algebra.BigOperators.Associated

/-! # The period of a shift register

A shift to the right divides by `X`, modulo the polynomial of the taps with a
constant term below them. A register therefore comes back after as many shifts
as `X` has order, and a computation with remainders decides whether that order
is as large as it can be.
-/

namespace BitPolynomial

open Polynomial

variable {width polynom value left right : Nat}

/-- The class of a number modulo the divisor. -/
noncomputable def residue (width polynom value : Nat) : AdjoinRoot (divisor width polynom) :=
  AdjoinRoot.mk (divisor width polynom) (ofNat value)

/-- Horner's rule over the low bits of a factor. -/
def multiply (width polynom left right : Nat) : Nat → Nat
  | 0 => 0
  | count + 1 =>
      divideBit width polynom (multiply width polynom left (right / 2) count) ^^^
        if right % 2 = 1 then left else 0

/-- Continue with a value that is computed first, so that evaluation by the
kernel does not pile up what is still to be computed. -/
def forced (value : Nat) (next : Nat → Nat) : Nat :=
  match value with
  | 0 => next 0
  | value + 1 => next (value + 1)

@[simp] theorem forced_eq (next : Nat → Nat) : forced value next = next value := by
  cases value <;> rfl

/-- Squaring and multiplying over the low bits of an exponent, the highest one
first. -/
def power (width polynom base exponent : Nat) : Nat → Nat → Nat
  | 0, value => value
  | count + 1, value =>
      forced (multiply width polynom value value width) fun square =>
        if exponent.testBit count then
          forced (multiply width polynom square base width)
            (power width polynom base exponent count)
        else power width polynom base exponent count square

theorem ofNat_div_two :
    ofNat value = ofNat (value / 2) * X + if value % 2 = 1 then 1 else 0 := by
  ext bit
  cases bit with
  | zero => by_cases hlow : value % 2 = 1 <;> simp [hlow]
  | succ bit =>
      have hrest : (if value % 2 = 1 then 1 else (0 : (ZMod 2)[X])).coeff (bit + 1) = 0 := by
        split <;> simp [coeff_one]
      rw [coeff_add, hrest, coeff_mul_X, coeff_ofNat, coeff_ofNat, Nat.testBit_div_two, add_zero]

@[simp] theorem residue_zero : residue width polynom 0 = 0 := by
  rw [residue, ofNat_zero, map_zero]

@[simp] theorem residue_one : residue width polynom 1 = 1 := by
  rw [residue, ← pow_zero 2, ofNat_two_pow, pow_zero, map_one]

theorem residue_two : residue width polynom 2 = AdjoinRoot.root (divisor width polynom) := by
  have htwo := ofNat_two_pow 1
  rw [pow_one, pow_one] at htwo
  rw [residue, htwo, AdjoinRoot.mk_X]

theorem one_add_one : (1 : AdjoinRoot (divisor width polynom)) + 1 = 0 := by
  rw [← map_one (AdjoinRoot.mk _), ← map_add, CharTwo.add_self_eq_zero, map_zero]

theorem residue_xor :
    residue width polynom (left ^^^ right) =
      residue width polynom left + residue width polynom right := by
  rw [residue, ofNat_xor, map_add, residue, residue]

/-- Numbers below the leading term represent their own class. -/
theorem eq_of_residue_eq (hpolynom : polynom < 2 ^ width) (hleft : left < 2 ^ width)
    (hright : right < 2 ^ width)
    (heq : residue width polynom left = residue width polynom right) : left = right := by
  apply ofNat_injective
  rw [eq_modByMonic hpolynom hleft heq, ← eq_modByMonic hpolynom hright rfl]

theorem residue_divideBit (hwidth : 0 < width) (hpolynom : polynom < 2 ^ width)
    (hvalue : value < 2 ^ width) :
    residue width polynom (divideBit width polynom value) =
      residue width polynom value * AdjoinRoot.root (divisor width polynom) := by
  have hclass := mk_divideBit_iterate hwidth hpolynom hvalue 1
  rw [Function.iterate_one, pow_one, map_mul, AdjoinRoot.mk_X] at hclass
  exact hclass

theorem multiply_lt (hpolynom : polynom < 2 ^ width) (hleft : left < 2 ^ width)
    (right count : Nat) :
    multiply width polynom left right count < 2 ^ width := by
  cases count with
  | zero => exact Nat.two_pow_pos width
  | succ count =>
      apply Nat.xor_lt_two_pow (divideBit_lt hpolynom)
      split
      · exact hleft
      · exact Nat.two_pow_pos width

theorem residue_multiply (hwidth : 0 < width) (hpolynom : polynom < 2 ^ width)
    (hleft : left < 2 ^ width) {count : Nat} (hright : right < 2 ^ count) :
    residue width polynom (multiply width polynom left right count) =
      residue width polynom left * residue width polynom right := by
  induction count generalizing right with
  | zero =>
      obtain rfl : right = 0 := by simpa using hright
      simp [multiply]
  | succ count ih =>
      have hhalf : right / 2 < 2 ^ count := by
        rw [pow_succ] at hright
        omega
      have hstep : residue width polynom right =
          residue width polynom (right / 2) * AdjoinRoot.root (divisor width polynom) +
            if right % 2 = 1 then 1 else 0 := by
        rw [residue, ofNat_div_two, map_add, map_mul, AdjoinRoot.mk_X, residue]
        congr 1
        split
        · exact map_one _
        · exact map_zero _
      rw [multiply, residue_xor, residue_divideBit hwidth hpolynom (multiply_lt hpolynom hleft _ count),
        ih hhalf, hstep, mul_add, mul_assoc]
      congr 1
      split <;> simp

theorem power_lt (hpolynom : polynom < 2 ^ width) {base : Nat} (exponent count : Nat)
    (hvalue : value < 2 ^ width) : power width polynom base exponent count value < 2 ^ width := by
  induction count generalizing value with
  | zero => exact hvalue
  | succ count ih =>
      have hsquare := multiply_lt hpolynom hvalue value width
      rw [power, forced_eq, forced_eq]
      split
      · exact ih (multiply_lt hpolynom hsquare base width)
      · exact ih hsquare

theorem residue_power (hwidth : 0 < width) (hpolynom : polynom < 2 ^ width) {base : Nat}
    (hbase : base < 2 ^ width) (exponent count : Nat) (hvalue : value < 2 ^ width) :
    residue width polynom (power width polynom base exponent count value) =
      residue width polynom value ^ 2 ^ count *
        residue width polynom base ^ (exponent % 2 ^ count) := by
  induction count generalizing value with
  | zero => simp [power, Nat.mod_one]
  | succ count ih =>
      have hsquare := multiply_lt hpolynom hvalue value width
      have hexponent : exponent % 2 ^ (count + 1) =
          exponent % 2 ^ count + 2 ^ count * (exponent.testBit count).toNat := by
        rw [Nat.mod_pow_succ, Nat.toNat_testBit]
      rw [power, forced_eq, forced_eq, hexponent]
      split
      · next hbit =>
          rw [ih (multiply_lt hpolynom hsquare base width), hbit,
            residue_multiply hwidth hpolynom hsquare hbase,
            residue_multiply hwidth hpolynom hvalue hvalue, Bool.toNat_true]
          ring
      · next hbit =>
          rw [ih hsquare, Bool.eq_false_of_not_eq_true hbit,
            residue_multiply hwidth hpolynom hvalue hvalue, Bool.toNat_false]
          ring

end BitPolynomial

namespace Lfsr

open Function BitPolynomial

/-- A period is the least one when it cannot be divided by any of its prime
factors. -/
theorem minimalPeriod_eq_of_prime_factors {Point : Type} {map : Point → Point} {point : Point}
    {period : Nat} (hperiodic : IsPeriodicPt map period point)
    (hfactors : ∀ factor, factor.Prime → factor ∣ period →
      ¬ IsPeriodicPt map (period / factor) point) : minimalPeriod map point = period := by
  obtain ⟨quotient, hquotient⟩ := hperiodic.minimalPeriod_dvd
  by_contra hne
  have hproper : quotient ≠ 1 := by
    rintro rfl
    exact hne (hquotient.trans (mul_one _)).symm
  have hprime := Nat.minFac_prime hproper
  obtain ⟨rest, hrest⟩ := quotient.minFac_dvd
  have hdivided : period / quotient.minFac = minimalPeriod map point * rest := by
    apply Nat.div_eq_of_eq_mul_right hprime.pos
    rw [← mul_assoc, mul_comm quotient.minFac, mul_assoc, ← hrest]
    exact hquotient
  apply hfactors quotient.minFac hprime
  · exact quotient.minFac_dvd.trans ⟨_, hquotient.trans (mul_comm _ _)⟩
  · rw [hdivided, isPeriodicPt_iff_minimalPeriod_dvd]
    exact Nat.dvd_mul_right _ _

variable {size width : Nat} {mask register : BitVec (size + 1)}

/-- The divisor of a register with a full mask, without its leading term. -/
def taps (width : Nat) (mask : BitVec (size + 1)) : Nat := 2 * mask.toNat + 1 - 2 ^ width

/-- The certificate of a maximal period: the prime factors of the period, each
with the inverse that keeps the shorter number of shifts from being one. -/
def Maximal (width polynom : Nat) (factors : List (Nat × Nat)) : Prop :=
  power width polynom 2 (2 ^ width - 1) width 1 = 1 ∧
    (factors.map Prod.fst).prod = 2 ^ width - 1 ∧
    ∀ factor ∈ factors, factor.2 < 2 ^ width ∧
      multiply width polynom (power width polynom 2 ((2 ^ width - 1) / factor.1) width 1 ^^^ 1)
        factor.2 width = 1

instance (width polynom : Nat) (factors : List (Nat × Nat)) :
    Decidable (Maximal width polynom factors) :=
  inferInstanceAs (Decidable (_ ∧ _ ∧ _))

theorem taps_lt (hmask : mask.toNat < 2 ^ width) : taps width mask < 2 ^ width := by
  unfold taps
  omega

/-- The taps under the leading term are the mask over the constant term. -/
theorem divisor_taps (hmask : mask.toNat < 2 ^ width) (htop : 2 ^ width ≤ 2 * mask.toNat + 1) :
    divisor width (taps width mask) = ofNat (2 * mask.toNat + 1) := by
  have hsum : 2 * mask.toNat + 1 = 2 ^ width * 1 + taps width mask := by
    unfold taps
    omega
  ext bit
  rw [hsum, divisor, Polynomial.coeff_add, Polynomial.coeff_X_pow, coeff_ofNat, coeff_ofNat,
    Nat.testBit_two_pow_mul_add _ (taps_lt hmask)]
  rcases lt_trichotomy bit width with hlt | rfl | hgt
  · simp [hlt, hlt.ne]
  · simp [Nat.testBit_lt_two_pow (taps_lt hmask)]
  · have hsmall : taps width mask < 2 ^ bit :=
      lt_of_lt_of_le (taps_lt hmask) (Nat.pow_le_pow_right (by norm_num) hgt.le)
    have hone : Nat.testBit 1 (bit - width) = false := by
      apply Nat.testBit_lt_two_pow
      exact Nat.one_lt_two_pow (Nat.sub_ne_zero_of_lt hgt)
    simp [hgt.not_gt, hgt.ne', Nat.testBit_lt_two_pow hsmall, hone]

/-- A shift divides by `X`, after it has made the register divisible. -/
theorem ofNat_shift : ofNat (shift mask register).toNat * Polynomial.X =
    ofNat register.toNat +
      if register.toNat % 2 = 1 then ofNat (2 * mask.toNat + 1) else 0 := by
  have hhalf : (register >>> 1).toNat = register.toNat / 2 := toNat_half
  have hregister := @ofNat_div_two register.toNat
  have hmask := @ofNat_div_two (2 * mask.toNat + 1)
  have hupper : (2 * mask.toNat + 1) / 2 = mask.toNat := by omega
  have hconstant : (2 * mask.toNat + 1) % 2 = 1 := by omega
  rw [hupper, if_pos hconstant] at hmask
  rw [shift]
  split
  · next hfeedback =>
      have hbit := and_one_eq_one_iff.mp hfeedback
      rw [if_pos hbit] at hregister ⊢
      rw [BitVec.toNat_xor, hhalf, ofNat_xor, hmask, hregister, add_mul, add_add_add_comm,
        CharTwo.add_self_eq_zero, add_zero]
  · next hfeedback =>
      have hbit := fun hone => hfeedback (and_one_eq_one_iff.mpr hone)
      rw [if_neg hbit] at hregister ⊢
      rw [hhalf, hregister, add_zero, add_zero]

theorem iterate_lt (hmask : mask.toNat < 2 ^ width) (hregister : register.toNat < 2 ^ width)
    (count : Nat) : ((shift mask)^[count] register).toNat < 2 ^ width := by
  cases count with
  | zero => exact hregister
  | succ count =>
      apply iterate_shift_lt hmask
      rw [pow_succ]
      omega

/-- In the quotient, shifts are undone by powers of the root. -/
theorem residue_iterate_shift (hmask : mask.toNat < 2 ^ width)
    (htop : 2 ^ width ≤ 2 * mask.toNat + 1) (count : Nat) :
    residue width (taps width mask) ((shift mask)^[count] register).toNat *
        AdjoinRoot.root (divisor width (taps width mask)) ^ count =
      residue width (taps width mask) register.toNat := by
  induction count with
  | zero => simp
  | succ count ih =>
      rw [← ih, iterate_succ_apply', pow_succ', ← mul_assoc]
      congr 1
      rw [residue, ← AdjoinRoot.mk_X, ← map_mul, ofNat_shift, ← divisor_taps hmask htop, map_add]
      split <;> simp [residue]

theorem isUnit_root (hmask : mask.toNat < 2 ^ width) (htop : 2 ^ width ≤ 2 * mask.toNat + 1) :
    IsUnit (AdjoinRoot.root (divisor width (taps width mask))) := by
  have hdivisor := @ofNat_div_two (2 * mask.toNat + 1)
  have hconstant : (2 * mask.toNat + 1) % 2 = 1 := by omega
  rw [if_pos hconstant, ← divisor_taps hmask htop] at hdivisor
  have hzero := congrArg (AdjoinRoot.mk (divisor width (taps width mask))) hdivisor
  rw [AdjoinRoot.mk_self, map_add, map_mul, map_one, AdjoinRoot.mk_X] at hzero
  apply IsUnit.of_mul_eq_one (-AdjoinRoot.mk _ (ofNat ((2 * mask.toNat + 1) / 2)))
  rw [mul_neg, mul_comm, neg_eq_iff_add_eq_zero]
  exact hzero.symm

theorem isPeriodicPt_shift_iff (hmask : mask.toNat < 2 ^ width)
    (htop : 2 ^ width ≤ 2 * mask.toNat + 1) (hregister : register.toNat < 2 ^ width)
    (count : Nat) :
    IsPeriodicPt (shift mask) count register ↔
      residue width (taps width mask) register.toNat *
        (AdjoinRoot.root (divisor width (taps width mask)) ^ count - 1) = 0 := by
  have hiterate := @residue_iterate_shift size width mask register hmask htop count
  rw [mul_sub, mul_one, sub_eq_zero]
  constructor
  · intro hperiodic
    rw [hperiodic.eq] at hiterate
    exact hiterate
  · intro hroot
    have hsame := ((isUnit_root hmask htop).pow count).mul_left_inj.mp (hiterate.trans hroot.symm)
    apply BitVec.eq_of_toNat_eq
    exact eq_of_residue_eq (taps_lt hmask) (iterate_lt hmask hregister count) hregister hsame

/-- A certified register runs through all the values that are not zero. -/
theorem minimalPeriod_shift {factors : List (Nat × Nat)} (hwidth : 1 < width)
    (hmask : mask.toNat < 2 ^ width) (htop : 2 ^ width ≤ 2 * mask.toNat + 1)
    (hprime : ∀ factor ∈ factors, factor.1.Prime)
    (hmaximal : Maximal width (taps width mask) factors) (hne : register ≠ 0)
    (hregister : register.toNat < 2 ^ width) :
    minimalPeriod (shift mask) register = 2 ^ width - 1 := by
  obtain ⟨hreturn, hproduct, hinverses⟩ := hmaximal
  have hpos : 0 < width := by omega
  have htaps := taps_lt hmask
  have hperiods := isPeriodicPt_shift_iff hmask htop hregister
  have htwo : 2 < 2 ^ width := lt_of_eq_of_lt (pow_one 2).symm (Nat.pow_lt_pow_right (by norm_num) hwidth)
  have hpower : ∀ exponent < 2 ^ width,
      residue width (taps width mask) (power width (taps width mask) 2 exponent width 1) =
        AdjoinRoot.root (divisor width (taps width mask)) ^ exponent := by
    intro exponent hexponent
    rw [residue_power hpos htaps htwo _ _ (by omega), residue_one, one_pow, one_mul, residue_two,
      Nat.mod_eq_of_lt hexponent]
  apply minimalPeriod_eq_of_prime_factors
  · rw [hperiods, ← hpower _ (by omega), hreturn, residue_one, sub_self, mul_zero]
  · intro prime hp hdvd hperiodic
    -- The prime is one of the certificate, whose inverse makes the register zero.
    rw [← hproduct, hp.prime.dvd_prod_iff] at hdvd
    obtain ⟨_, hmem, hdvd⟩ := hdvd
    obtain ⟨factor, hfactor, rfl⟩ := List.mem_map.mp hmem
    obtain rfl := (Nat.prime_dvd_prime_iff_eq hp (hprime factor hfactor)).mp hdvd
    obtain ⟨hlt, hinverse⟩ := hinverses factor hfactor
    have hexponent : (2 ^ width - 1) / factor.1 < 2 ^ width := by
      apply lt_of_le_of_lt (Nat.div_le_self _ _)
      omega
    have hsmall : power width (taps width mask) 2 ((2 ^ width - 1) / factor.1) width 1 ^^^ 1 <
        2 ^ width := Nat.xor_lt_two_pow (power_lt htaps _ _ (by omega)) (by omega)
    have hminus : AdjoinRoot.root (divisor width (taps width mask)) ^ ((2 ^ width - 1) / factor.1) - 1 =
        residue width (taps width mask)
          (power width (taps width mask) 2 ((2 ^ width - 1) / factor.1) width 1 ^^^ 1) := by
      rw [residue_xor, hpower _ hexponent, sub_eq_iff_eq_add, add_assoc, residue_one, one_add_one,
        add_zero]
    have hunit := residue_multiply hpos htaps hsmall hlt
    rw [hinverse, ← hminus, residue_one] at hunit
    have hzero : residue width (taps width mask) register.toNat = 0 := by
      rw [← mul_one (residue _ _ _), hunit, ← mul_assoc, (hperiods _).mp hperiodic, zero_mul]
    apply hne
    apply BitVec.eq_of_toNat_eq
    exact eq_of_residue_eq htaps hregister (Nat.two_pow_pos width) (hzero.trans residue_zero.symm)

end Lfsr
