import Mathlib.Algebra.Polynomial.Div
import Mathlib.RingTheory.AdjoinRoot
import Mathlib.Algebra.CharP.Two
import Mathlib.Data.Nat.Bitwise
import Mathlib.Data.Nat.Size
import Mathlib.Algebra.Field.ZMod

/-! # Numbers as polynomials over two elements

The bits of a number are the coefficients of a polynomial: exclusive or is
addition and a shift to the left is multiplication by a power of `X`. A
register of fixed width that is shifted and reduced by a polynomial, bit by
bit, holds a remainder.
-/

namespace BitPolynomial

open Polynomial

/-- The polynomial whose coefficients are the bits of a number. -/
noncomputable def ofNat (value : Nat) : (ZMod 2)[X] :=
  ∑ bit ∈ Finset.range value.size, if value.testBit bit then X ^ bit else 0

variable {value left right width : Nat}

@[simp] theorem coeff_ofNat (bit : Nat) :
    (ofNat value).coeff bit = if value.testBit bit then 1 else 0 := by
  have hterm : ∀ index, (if value.testBit index then X ^ index else (0 : (ZMod 2)[X])).coeff bit =
      if index = bit then if value.testBit index then 1 else 0 else 0 := by
    intro index
    split <;> simp [coeff_X_pow, eq_comm]
  rw [ofNat, finsetSum_coeff]
  simp only [hterm]
  rw [Finset.sum_ite_eq', ite_eq_left_iff]
  intro hout
  have hlow : value < 2 ^ bit := by
    rw [← Nat.size_le]
    simpa using hout
  rw [Nat.testBit_lt_two_pow hlow]
  rfl

theorem ofNat_injective : Function.Injective ofNat := by
  intro left right heq
  apply Nat.eq_of_testBit_eq
  intro bit
  have hcoeff := congrArg (fun polynomial => polynomial.coeff bit) heq
  simp only [coeff_ofNat] at hcoeff
  revert hcoeff
  cases left.testBit bit <;> cases right.testBit bit <;> simp

@[simp] theorem ofNat_zero : ofNat 0 = 0 := by
  ext bit
  simp

theorem ofNat_xor : ofNat (left ^^^ right) = ofNat left + ofNat right := by
  ext bit
  simp only [coeff_ofNat, coeff_add, Nat.testBit_xor]
  cases left.testBit bit <;> cases right.testBit bit <;> decide

theorem ofNat_shiftLeft (count : Nat) : ofNat (value <<< count) = ofNat value * X ^ count := by
  ext bit
  rw [coeff_mul_X_pow', coeff_ofNat, coeff_ofNat, Nat.testBit_shiftLeft]
  by_cases hle : count ≤ bit <;> simp [hle]

theorem ofNat_two_pow (count : Nat) : ofNat (2 ^ count) = X ^ count := by
  ext bit
  rw [coeff_ofNat, coeff_X_pow, Nat.testBit_two_pow]
  simp [eq_comm]

theorem degree_ofNat_lt (hlt : value < 2 ^ width) : (ofNat value).degree < width := by
  rw [degree_lt_iff_coeff_zero]
  intro bit hbit
  rw [coeff_ofNat, Nat.testBit_lt_two_pow (lt_of_lt_of_le hlt (Nat.pow_le_pow_right (by norm_num)
    hbit))]
  rfl

theorem ofNat_mod_two_pow (low : Nat) :
    ofNat (value % 2 ^ (low + width)) =
      ofNat (value >>> low % 2 ^ width) * X ^ low + ofNat (value % 2 ^ low) := by
  ext bit
  rw [coeff_add, coeff_mul_X_pow', coeff_ofNat, coeff_ofNat, coeff_ofNat, Nat.testBit_mod_two_pow,
    Nat.testBit_mod_two_pow, Nat.testBit_mod_two_pow, Nat.testBit_shiftRight]
  by_cases hlow : low ≤ bit
  · have hwidth : bit - low < width ↔ bit < low + width := by omega
    simp [hlow, hlow.not_gt, Nat.add_sub_cancel' hlow, hwidth]
  · have hbit : bit < low + width := by omega
    simp [hlow, not_le.mp hlow, hbit]

/-! ## Errors that no divisor misses -/

section Errors

variable {error divisor : (ZMod 2)[X]}

/-- A divisor with a constant term has no factor in common with a shift. -/
theorem isCoprime_X_pow (hconstant : divisor.coeff 0 = 1) (count : Nat) :
    IsCoprime divisor (X ^ count) := by
  apply IsCoprime.pow_right
  refine ⟨1, -divisor.divX, ?_⟩
  nth_rewrite 1 [← divX_mul_X_add divisor]
  rw [hconstant, map_one]
  ring

/-- A divisor with a constant term does not divide a polynomial whose terms lie
closer together than its degree. -/
theorem not_dvd_of_window (hconstant : divisor.coeff 0 = 1) (hne : error ≠ 0)
    {low : Nat} (hwindow : ∀ bit, error.coeff bit ≠ 0 → low ≤ bit ∧ bit < low + divisor.natDegree) :
    ¬ divisor ∣ error := by
  intro hdvd
  obtain ⟨burst, rfl⟩ : X ^ low ∣ error := by
    rw [X_pow_dvd_iff]
    intro bit hbit
    by_contra hcoeff
    exact absurd (hwindow bit hcoeff).1 (not_le.mpr hbit)
  have hburst : burst ≠ 0 := right_ne_zero_of_mul hne
  have hfactor := (isCoprime_X_pow hconstant low).dvd_of_dvd_mul_left hdvd
  have hle := natDegree_le_of_dvd hfactor hburst
  -- The leading term of the burst lies inside the window.
  have hlead : (X ^ low * burst).coeff (burst.natDegree + low) ≠ 0 := by
    rw [coeff_X_pow_mul]
    exact leadingCoeff_ne_zero.mpr hburst
  have hlt := (hwindow _ hlead).2
  rw [Nat.add_comm] at hlt
  exact absurd hle (not_le.mpr (Nat.lt_of_add_lt_add_left hlt))

/-- A divisor that vanishes at one divides no polynomial with an odd number of
terms. -/
theorem not_dvd_of_odd (hroot : divisor.eval 1 = 0) (hodd : error.eval 1 = 1) :
    ¬ divisor ∣ error := by
  rintro ⟨quotient, rfl⟩
  rw [eval_mul, hroot, zero_mul] at hodd
  exact zero_ne_one hodd

end Errors

/-! ## Reduction in a register -/

/-- The divisor of a register: its width gives the leading term. -/
noncomputable def divisor (width polynom : Nat) : (ZMod 2)[X] := X ^ width + ofNat polynom

/-- One bit of long division: the register is shifted, and the divisor is
taken off when the bit that leaves it is set. -/
def divideBit (width polynom register : Nat) : Nat :=
  if register.testBit (width - 1) then register <<< 1 % 2 ^ width ^^^ polynom
  else register <<< 1 % 2 ^ width

variable {polynom register : Nat}

theorem divisor_monic (hpolynom : polynom < 2 ^ width) : (divisor width polynom).Monic :=
  monic_X_pow_add (degree_ofNat_lt hpolynom)

theorem coeff_zero_divisor (hwidth : 0 < width) (hodd : polynom.testBit 0 = true) :
    (divisor width polynom).coeff 0 = 1 := by
  rw [divisor, coeff_add, coeff_X_pow, coeff_ofNat, if_neg hwidth.ne, if_pos hodd, zero_add]

theorem degree_divisor (hpolynom : polynom < 2 ^ width) :
    (divisor width polynom).degree = width := by
  rw [divisor, degree_add_eq_left_of_degree_lt, degree_X_pow]
  rw [degree_X_pow]
  exact degree_ofNat_lt hpolynom

theorem divideBit_lt (hpolynom : polynom < 2 ^ width) : divideBit width polynom register < 2 ^ width := by
  have hshifted : register <<< 1 % 2 ^ width < 2 ^ width := Nat.mod_lt _ (Nat.two_pow_pos width)
  unfold divideBit
  split
  · exact Nat.xor_lt_two_pow hshifted hpolynom
  · exact hshifted

/-- What the truncation to the register removes. -/
theorem shiftLeft_mod (hwidth : 0 < width) (hregister : register < 2 ^ width) :
    register <<< 1 % 2 ^ width =
      if register.testBit (width - 1) then register <<< 1 ^^^ 2 ^ width else register <<< 1 := by
  have hhigh : ∀ bit, width ≤ bit → register.testBit bit = false := fun bit hbit =>
    Nat.testBit_lt_two_pow (lt_of_lt_of_le hregister (Nat.pow_le_pow_right (by norm_num) hbit))
  apply Nat.eq_of_testBit_eq
  intro bit
  rw [Nat.testBit_mod_two_pow]
  rcases lt_trichotomy bit width with hlt | rfl | hgt
  · split <;> simp [hlt, hlt.ne']
  · have hone : 1 ≤ bit := hwidth
    split
    · next htop => simp [hone, htop]
    · next htop => simp [hone, htop]
  · have hzero : register.testBit (bit - 1) = false := hhigh _ (by omega)
    split <;> simp [hzero, hgt.not_gt, hgt.ne]

/-- A bit of division multiplies by `X` and subtracts at most the divisor. -/
theorem ofNat_divideBit (hwidth : 0 < width) (hregister : register < 2 ^ width) :
    ofNat (divideBit width polynom register) = ofNat register * X +
      if register.testBit (width - 1) then divisor width polynom else 0 := by
  rw [divideBit, shiftLeft_mod hwidth hregister]
  split
  · rw [ofNat_xor, ofNat_xor, ofNat_shiftLeft, ofNat_two_pow, divisor, pow_one, add_assoc]
  · rw [ofNat_shiftLeft, pow_one, add_zero]

theorem divideBit_iterate_lt (hpolynom : polynom < 2 ^ width) (hregister : register < 2 ^ width)
    (count : Nat) :
    (divideBit width polynom)^[count] register < 2 ^ width := by
  cases count with
  | zero => exact hregister
  | succ count =>
      rw [Function.iterate_succ_apply']
      exact divideBit_lt hpolynom

/-- Bits of division keep the class of the register, shifted. -/
theorem mk_divideBit_iterate (hwidth : 0 < width) (hpolynom : polynom < 2 ^ width)
    (hregister : register < 2 ^ width) (count : Nat) :
    AdjoinRoot.mk (divisor width polynom) (ofNat ((divideBit width polynom)^[count] register)) =
      AdjoinRoot.mk (divisor width polynom) (ofNat register * X ^ count) := by
  induction count with
  | zero => simp
  | succ count ih =>
      have hlt := divideBit_iterate_lt hpolynom hregister count
      have hzero : AdjoinRoot.mk (divisor width polynom)
          (if ((divideBit width polynom)^[count] register).testBit (width - 1)
            then divisor width polynom else 0) = 0 := by
        split
        · exact AdjoinRoot.mk_self
        · exact map_zero _
      rw [Function.iterate_succ_apply', ofNat_divideBit hwidth hlt, map_add, hzero, add_zero,
        map_mul, ih, ← map_mul, pow_succ, mul_assoc]

/-- A register that is in the class of a polynomial is its remainder. -/
theorem eq_modByMonic (hpolynom : polynom < 2 ^ width) (hregister : register < 2 ^ width)
    {dividend : (ZMod 2)[X]}
    (hclass : AdjoinRoot.mk (divisor width polynom) (ofNat register) =
      AdjoinRoot.mk (divisor width polynom) dividend) :
    ofNat register = dividend %ₘ divisor width polynom := by
  have hmonic := divisor_monic hpolynom
  have hself : ofNat register %ₘ divisor width polynom = ofNat register := by
    rw [modByMonic_eq_self_iff hmonic, degree_divisor hpolynom]
    exact degree_ofNat_lt hregister
  rw [← hself]
  exact modByMonic_eq_of_dvd_sub hmonic (AdjoinRoot.mk_eq_mk.mp hclass)

end BitPolynomial
