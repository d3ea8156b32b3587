import Mathlib.Data.Nat.Bitwise
import Mathlib.Logic.Function.Iterate

/-! # Linear feedback shift registers

A register in Galois form is shifted to the right, and the bit that falls out
decides whether the tap mask is added. Zero is a fixed point. The only other
value that is shifted into zero is the one whose remaining bits are the mask
itself, and it needs one bit more than the mask.
-/

namespace Lfsr

variable {width : Nat}

/-- One shift of a register with the taps of `mask`. -/
def shift (mask register : BitVec (width + 1)) : BitVec (width + 1) :=
  if register &&& 1 = 1 then register >>> 1 ^^^ mask else register >>> 1

variable {mask register : BitVec (width + 1)} {bits : Nat}

theorem and_one_eq_one_iff : register &&& 1 = 1 ↔ register.toNat % 2 = 1 := by
  have hone : (1 : BitVec (width + 1)).toNat = 1 :=
    Nat.mod_eq_of_lt (Nat.one_lt_two_pow (Nat.succ_ne_zero width))
  rw [← BitVec.toNat_inj, BitVec.toNat_and, hone, Nat.and_one_is_mod]

theorem toNat_half : (register >>> 1).toNat = register.toNat / 2 := by
  rw [BitVec.toNat_ushiftRight, Nat.shiftRight_eq_div_pow, pow_one]

/-- The values that are shifted into zero. -/
theorem shift_eq_zero_iff :
    shift mask register = 0 ↔ register = 0 ∨ register.toNat = 2 * mask.toNat + 1 := by
  have hzero : ∀ value : BitVec (width + 1), value = 0 ↔ value.toNat = 0 := fun value => by
    rw [← BitVec.toNat_inj]
    rfl
  have hhalf := @toNat_half width register
  have hodd := @and_one_eq_one_iff width register
  unfold shift
  split
  · next hfeedback =>
      have hlow := hodd.mp hfeedback
      rw [BitVec.ofNat_eq_ofNat, BitVec.xor_eq_zero_iff, ← BitVec.toNat_inj, hhalf,
        ← BitVec.ofNat_eq_ofNat, hzero register]
      omega
  · next hfeedback =>
      have hlow : ¬ register.toNat % 2 = 1 := fun hone => hfeedback (hodd.mpr hone)
      rw [hzero, hhalf, hzero register]
      omega

/-- A shift drops one bit, down to the size of the mask. -/
theorem shift_lt (hmask : mask.toNat < 2 ^ bits) (hregister : register.toNat < 2 ^ (bits + 1)) :
    (shift mask register).toNat < 2 ^ bits := by
  have hhalf : (register >>> 1).toNat < 2 ^ bits := by
    rw [toNat_half]
    rw [pow_succ] at hregister
    omega
  unfold shift
  split
  · rw [BitVec.toNat_xor]
    exact Nat.xor_lt_two_pow hhalf hmask
  · exact hhalf

/-- A register no larger than its mask becomes zero only if it is zero. -/
theorem shift_eq_zero_iff_of_lt (htop : 2 ^ bits ≤ 2 * mask.toNat + 1)
    (hregister : register.toNat < 2 ^ bits) : shift mask register = 0 ↔ register = 0 := by
  rw [shift_eq_zero_iff]
  constructor
  · intro hzero
    apply hzero.resolve_right
    omega
  · exact Or.inl

theorem iterate_shift_lt (hmask : mask.toNat < 2 ^ bits) (hregister : register.toNat < 2 ^ (bits + 1))
    (count : Nat) : ((shift mask)^[count + 1] register).toNat < 2 ^ bits := by
  induction count with
  | zero => exact shift_lt hmask hregister
  | succ count ih =>
      rw [Function.iterate_succ_apply']
      apply shift_lt hmask
      rw [pow_succ]
      omega

/-- What the first shift of a register makes of it decides for ever: a mask of
full size keeps zero and non-zero values apart from then on. -/
theorem iterate_shift_eq_zero_iff (hmask : mask.toNat < 2 ^ bits)
    (htop : 2 ^ bits ≤ 2 * mask.toNat + 1) (hregister : register.toNat < 2 ^ (bits + 1))
    (count : Nat) :
    (shift mask)^[count + 1] register = 0 ↔
      register = 0 ∨ register.toNat = 2 * mask.toNat + 1 := by
  induction count with
  | zero => exact shift_eq_zero_iff
  | succ count ih =>
      rw [Function.iterate_succ_apply',
        shift_eq_zero_iff_of_lt htop (iterate_shift_lt hmask hregister count)]
      exact ih

end Lfsr
