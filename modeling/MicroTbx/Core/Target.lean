import Mathlib.Data.Nat.Bitwise
import Mathlib.Tactic.Ring

/-! # Target platforms

The library is compiled for a platform with one machine word size: pointers
and `size_t` values occupy a word. The width of `size_t`, the word size and
the configured heap are parameters, so that every port is an instance.
-/

namespace MicroTbx

/-- A compilation target together with its heap configuration. -/
structure Target where
  /-- Width of `size_t` in bits. -/
  sizeBits : Nat
  /-- `sizeof(void *)` and `sizeof(size_t)` are `2 ^ wordLog` bytes. -/
  wordLog : Nat
  /-- `TBX_CONF_HEAP_SIZE`. -/
  heapSize : Nat
  /-- Address of `tbxHeapBuffer`. -/
  heapBase : Nat
  words_fit : wordLog + 3 ≤ sizeBits
  heapSize_lt : heapSize < 2 ^ sizeBits
  heapBase_pos : 0 < heapBase

namespace Target

variable (target : Target)

/-- Bytes in a machine word. -/
def word : Nat := 2 ^ target.wordLog

/-- Conversion to `size_t`. -/
def sizeT (value : Nat) : Nat := value % 2 ^ target.sizeBits

/-- Bitwise complement of a `size_t` value. -/
def sizeComplement (value : Nat) : Nat := 2 ^ target.sizeBits - 1 - value

/-- Mathematical round-up to a multiple of the word size. -/
def roundUp (size : Nat) : Nat := (size + (target.word - 1)) / target.word * target.word

/-- The round-up of a request does not leave the range of `size_t`. -/
def Fits (size : Nat) : Prop := size + (target.word - 1) < 2 ^ target.sizeBits

instance (size : Nat) : Decidable (target.Fits size) := inferInstanceAs (Decidable (_ < _))

theorem word_pos : 0 < target.word := Nat.two_pow_pos _

theorem eight_words_le : 8 * target.word ≤ 2 ^ target.sizeBits := by
  calc 8 * target.word = 2 ^ (target.wordLog + 3) := by rw [word, pow_add]; ring
    _ ≤ 2 ^ target.sizeBits := Nat.pow_le_pow_right (by norm_num) target.words_fit

theorem sizeT_of_lt {value : Nat} (hlt : value < 2 ^ target.sizeBits) :
    target.sizeT value = value := Nat.mod_eq_of_lt hlt

theorem sizeT_lt (value : Nat) : target.sizeT value < 2 ^ target.sizeBits :=
  Nat.mod_lt _ (Nat.two_pow_pos _)

theorem word_dvd_roundUp (size : Nat) : target.word ∣ target.roundUp size :=
  Nat.dvd_mul_left ..

theorem le_roundUp (size : Nat) : size ≤ target.roundUp size := by
  have hword := target.word_pos
  have hdiv := Nat.div_add_mod (size + (target.word - 1)) target.word
  have hmod := Nat.mod_lt (size + (target.word - 1)) hword
  rw [mul_comm] at hdiv
  unfold roundUp
  omega

theorem roundUp_lt (size : Nat) : target.roundUp size < size + target.word := by
  have hword := target.word_pos
  have hle := Nat.div_mul_le_self (size + (target.word - 1)) target.word
  unfold roundUp
  omega

theorem roundUp_of_dvd {size : Nat} (hdvd : target.word ∣ size) : target.roundUp size = size := by
  obtain ⟨count, rfl⟩ := hdvd
  have hword := target.word_pos
  have hdiv : (target.word * count + (target.word - 1)) / target.word = count := by
    rw [Nat.mul_add_div hword, Nat.div_eq_of_lt (by omega), Nat.add_zero]
  rw [roundUp, hdiv, mul_comm]

theorem roundUp_mul (count : Nat) : target.roundUp (count * target.word) = count * target.word :=
  target.roundUp_of_dvd (Nat.dvd_mul_left ..)

/-- Masking with the complement of `word - 1` clears the low bits. -/
theorem and_complement_word {value : Nat} (hlt : value < 2 ^ target.sizeBits) :
    value &&& target.sizeComplement (target.word - 1) = value / target.word * target.word := by
  have hle : target.wordLog ≤ target.sizeBits := by have := target.words_fit; omega
  have hmask : target.sizeComplement (target.word - 1) =
      (2 ^ (target.sizeBits - target.wordLog) - 1) <<< target.wordLog := by
    rw [sizeComplement, word, Nat.shiftLeft_eq, Nat.sub_mul, ← pow_add, Nat.sub_add_cancel hle]
    have := Nat.two_pow_pos target.wordLog
    omega
  rw [hmask, word, ← Nat.shiftRight_eq_div_pow, ← Nat.shiftLeft_eq]
  apply Nat.eq_of_testBit_eq
  intro bit
  simp only [Nat.testBit_and, Nat.testBit_shiftLeft, Nat.testBit_two_pow_sub_one,
    Nat.testBit_shiftRight]
  by_cases hlow : target.wordLog ≤ bit
  · rw [Nat.add_sub_cancel' hlow]
    by_cases hhigh : bit < target.sizeBits
    · simp [hlow, show bit - target.wordLog < target.sizeBits - target.wordLog by omega]
    · have hzero : value.testBit bit = false :=
        Nat.testBit_lt_two_pow (lt_of_lt_of_le hlt
          (Nat.pow_le_pow_right (by norm_num) (by omega)))
      simp [hzero]
  · simp [hlow]

end Target

/-- A 64-bit platform with the configured default heap. -/
def linux64 : Target where
  sizeBits := 64
  wordLog := 3
  heapSize := 2048
  heapBase := 4096
  words_fit := by decide
  heapSize_lt := by decide
  heapBase_pos := by decide

end MicroTbx
