import MicroTbx.Foundation.LfsrPeriod
import MicroTbx.Random.Registers
import Mathlib.NumberTheory.LucasLehmer
import Mathlib.Tactic.NormNum.Prime

/-! # The period of the generator

Both masks give their register the longest period it can have. A number shifts
the first register four times and the second one twice, which divides neither
period, and the two periods have no factor in common. The pair of registers
therefore passes through all pairs of values that are not zero.
-/

namespace MicroTbx

open Function Program

/-- Numbers that are drawn one after the other. -/
def successiveNumbers : Nat → RandomCode (List (BitVec 32))
  | 0 => return []
  | count + 1 => do
      let number ← tbxRandomNumberGet
      let numbers ← successiveNumbers count
      return number :: numbers

/-- The two shift registers. -/
def RandomState.joint (state : RandomState) : BitVec 32 × BitVec 32 :=
  (state.tbxRandomNumberLFSR32, state.tbxRandomNumberLFSR31)

/-- What a number does to the two registers. -/
def jointStep : BitVec 32 × BitVec 32 → BitVec 32 × BitVec 32 :=
  Prod.map (Lfsr.shift tbxRandomLfsr32Polymask)^[4] (Lfsr.shift tbxRandomLfsr31Polymask)^[2]

/-- The prime factors of the period of the 32-bit register. -/
def lfsr32Factors : List (Nat × Nat) :=
  [(3, 0xE2581A14), (5, 0x441714FB), (17, 0x5FFD88A5), (257, 0x2F49FB1D), (65537, 0x73663FF1)]

/-- The period of the 31-bit register is itself a prime. -/
def lfsr31Factors : List (Nat × Nat) :=
  [(2 ^ 31 - 1, 0x53928342)]

variable {register : BitVec 32}

theorem minimalPeriod_lfsr32 (hne : register ≠ 0) :
    minimalPeriod (Lfsr.shift tbxRandomLfsr32Polymask) register = 2 ^ 32 - 1 := by
  have hmaximal : Lfsr.Maximal 32 (Lfsr.taps 32 tbxRandomLfsr32Polymask) lfsr32Factors := by
    decide +kernel
  apply Lfsr.minimalPeriod_shift (by norm_num) (by decide) (by decide) ?_ hmaximal hne register.isLt
  intro factor hfactor
  simp only [lfsr32Factors, List.mem_cons, List.not_mem_nil, or_false] at hfactor
  rcases hfactor with rfl | rfl | rfl | rfl | rfl <;> norm_num

theorem minimalPeriod_lfsr31 (hne : register ≠ 0) (hregister : register.toNat < 2 ^ 31) :
    minimalPeriod (Lfsr.shift tbxRandomLfsr31Polymask) register = 2 ^ 31 - 1 := by
  have hmaximal : Lfsr.Maximal 31 (Lfsr.taps 31 tbxRandomLfsr31Polymask) lfsr31Factors := by
    decide +kernel
  have hmersenne : (mersenne 31).Prime := lucas_lehmer_sufficiency 31 (by norm_num) (by norm_num)
  apply Lfsr.minimalPeriod_shift (by norm_num) (by decide) (by decide) ?_ hmaximal hne hregister
  intro factor hfactor
  obtain rfl := List.mem_singleton.mp hfactor
  exact hmersenne

/-- Shifting several times at once does not shorten a period that the number
of shifts has no factor in common with. -/
theorem minimalPeriod_iterate_of_coprime {Point : Type} {map : Point → Point} {point : Point}
    {count : Nat} (hcount : count ≠ 0) (hcoprime : (minimalPeriod map point).Coprime count) :
    minimalPeriod map^[count] point = minimalPeriod map point := by
  rw [minimalPeriod_iterate_eq_div_gcd hcount, hcoprime, Nat.div_one]

theorem minimalPeriod_jointStep {joint : BitVec 32 × BitVec 32} (hlfsr32 : joint.1 ≠ 0)
    (hlfsr31 : joint.2 ≠ 0) (hregister : joint.2.toNat < 2 ^ 31) :
    minimalPeriod jointStep joint = (2 ^ 32 - 1) * (2 ^ 31 - 1) := by
  have hperiod32 := minimalPeriod_lfsr32 hlfsr32
  have hperiod31 := minimalPeriod_lfsr31 hlfsr31 hregister
  rw [jointStep, minimalPeriod_prodMap, minimalPeriod_iterate_of_coprime (by norm_num),
    minimalPeriod_iterate_of_coprime (by norm_num), hperiod32, hperiod31]
  · exact Nat.Coprime.lcm_eq_mul (by norm_num)
  · rw [hperiod31]
    norm_num
  · rw [hperiod32]
    norm_num

theorem successiveNumbers_spec {state : RandomState} (hseeded : state.seeded = true)
    (count : Nat) :
    (successiveNumbers count).Returns state fun _ after =>
      after.joint = jointStep^[count] state.joint := by
  induction count generalizing state with
  | zero => exact (returns_pure _).mpr rfl
  | succ count ih =>
      have hready : state.ready = state := if_neg (by rw [hseeded]; decide)
      apply tbxRandomNumberGet_spec.bind
      rintro number _ rfl
      rw [hready]
      apply (@ih state.draw.draw hseeded).bind
      intro numbers after hafter
      exact (returns_pure _).mpr hafter

/-- Successive numbers run through all the values of the two registers that
are not zero before the registers hold what they held before. -/
theorem random_period_maximal {state : RandomState} (hseeded : state.seeded = true)
    (hlfsr32 : state.tbxRandomNumberLFSR32 ≠ 0)
    (hlfsr31 : 1 ≤ state.tbxRandomNumberLFSR31.toNat ∧
      state.tbxRandomNumberLFSR31.toNat ≤ 2 ^ 31 - 1) :
    ∃ joint : Nat → BitVec 32 × BitVec 32,
      (∀ count, (successiveNumbers count).Returns state fun _ after => after.joint = joint count) ∧
      IsLeast {period | 0 < period ∧ ∀ count, joint (count + period) = joint count}
        ((2 ^ 32 - 1) * (2 ^ 31 - 1)) := by
  have hne : state.joint.2 ≠ 0 := by
    intro hzero
    have hlow := hlfsr31.1
    rw [show state.tbxRandomNumberLFSR31 = 0 from hzero] at hlow
    exact absurd hlow (by decide)
  have hperiod : minimalPeriod jointStep state.joint = (2 ^ 32 - 1) * (2 ^ 31 - 1) :=
    minimalPeriod_jointStep hlfsr32 hne (Nat.lt_of_le_pred (by norm_num) hlfsr31.2)
  refine ⟨fun count => jointStep^[count] state.joint, successiveNumbers_spec hseeded, ?_, ?_⟩
  · refine ⟨by norm_num, fun count => ?_⟩
    change jointStep^[count + _] state.joint = jointStep^[count] state.joint
    rw [iterate_add_apply, ← hperiod, iterate_minimalPeriod]
  · rintro period ⟨hpos, hrepeats⟩
    rw [← hperiod]
    apply IsPeriodicPt.minimalPeriod_le hpos
    have hfirst := hrepeats 0
    rw [Nat.zero_add] at hfirst
    exact hfirst

/-- The default seeds lie on that cycle. -/
theorem random_period_maximal_default : ∃ joint : Nat → BitVec 32 × BitVec 32,
    (∀ count, (successiveNumbers count).Returns
      { RandomState.initial.seed with seeded := true } fun _ after => after.joint = joint count) ∧
    IsLeast {period | 0 < period ∧ ∀ count, joint (count + period) = joint count}
      ((2 ^ 32 - 1) * (2 ^ 31 - 1)) :=
  random_period_maximal rfl (by decide) (by decide)

end MicroTbx
