import MicroTbx.Foundation.BitPolynomial

/-! # Cyclic redundancy checks

Both checksums take a message byte by byte, the most significant bit first,
into a register that is shifted and reduced by a polynomial. The result is the
remainder of the message behind the initial value, shifted by the width of the
register.
-/

namespace MicroTbx

open Polynomial BitPolynomial

/-- What distinguishes the two checksums: the width of the result type, the
polynomial without its leading term, and the initial value. -/
structure Crc where
  bits : Nat
  polynom : Nat
  initial : Nat

namespace Crc

variable (intBits : Nat) (crc : Crc)

/-- Conversion to the result type. -/
def cast (value : Nat) : Nat := value % 2 ^ crc.bits

/-- A shift to the left. It is computed in `int` or `unsigned int` where these
are wider than the result type. -/
def shiftLeft (value count : Nat) : Nat := value <<< count % 2 ^ max intBits crc.bits

/-- The body of the loop through the bits. -/
def divide (result : Nat) : Nat :=
  if result &&& 2 ^ (crc.bits - 1) ≠ 0 then
    crc.cast (crc.cast (crc.shiftLeft intBits result 1) ^^^ crc.polynom)
  else crc.cast (crc.shiftLeft intBits result 1)

/-- The body of the loop through the bytes. -/
def introduce (result : Nat) (byte : BitVec 8) : Nat :=
  (crc.divide intBits)^[8]
    (crc.cast (result ^^^ crc.shiftLeft intBits (crc.cast byte.toNat) (crc.bits - 8)))

/-- The checksum of the bytes behind `data`, where `none` is `NULL`. An
assertion reports invalid parameters and has no influence on the result. -/
def calculate (data : Option (List (BitVec 8))) : Nat :=
  match data with
  | none => 0
  | some [] => 0
  | some bytes => bytes.foldl (crc.introduce intBits) (crc.cast crc.initial)

end Crc

/-- The default parameters of the 16-bit checksum. -/
def crc16 : Crc where
  bits := 16
  polynom := 0x1021
  initial := 0xFFFF

/-- The default parameters of the 32-bit checksum. -/
def crc32 : Crc where
  bits := 32
  polynom := 0x04C11DB7
  initial := 0xFFFFFFFF

def tbxChecksumCrc16Calculate (intBits : Nat) (data : Option (List (BitVec 8))) : Nat :=
  crc16.calculate intBits data

def tbxChecksumCrc32Calculate (intBits : Nat) (data : Option (List (BitVec 8))) : Nat :=
  crc32.calculate intBits data

/-! ## The remainder of a message -/

/-- The polynomial of a message: the most significant bit of the first byte is
the highest coefficient. -/
noncomputable def message : List (BitVec 8) → (ZMod 2)[X]
  | [] => 0
  | byte :: rest => ofNat byte.toNat * X ^ (8 * rest.length) + message rest

/-- A width of whole bytes, and a polynomial and an initial value inside it. -/
structure Crc.Valid (crc : Crc) : Prop where
  bits : 8 ≤ crc.bits
  polynom : crc.polynom < 2 ^ crc.bits
  initial : crc.initial < 2 ^ crc.bits

theorem crc16_valid : crc16.Valid := ⟨by decide, by decide, by decide⟩

theorem crc32_valid : crc32.Valid := ⟨by decide, by decide, by decide⟩

namespace Crc

variable {intBits : Nat} {crc : Crc} {result : Nat} {bytes : List (BitVec 8)}

theorem cast_lt (value : Nat) : crc.cast value < 2 ^ crc.bits :=
  Nat.mod_lt _ (Nat.two_pow_pos _)

theorem cast_of_lt {value : Nat} (hlt : value < 2 ^ crc.bits) : crc.cast value = value :=
  Nat.mod_eq_of_lt hlt

/-- The wider type of a shift makes no difference to the bits that are kept. -/
theorem cast_shiftLeft (value count : Nat) :
    crc.cast (crc.shiftLeft intBits value count) = value <<< count % 2 ^ crc.bits :=
  Nat.mod_mod_of_dvd _ (Nat.pow_dvd_pow 2 (Nat.le_max_right intBits crc.bits))

theorem and_two_pow_ne_zero_iff {value bit : Nat} : value &&& 2 ^ bit ≠ 0 ↔ value.testBit bit := by
  rw [Nat.and_two_pow]
  cases value.testBit bit <;> simp

/-- The body of the loop through the bits is one bit of division. -/
theorem divide_eq (hvalid : crc.Valid) :
    crc.divide intBits result = divideBit crc.bits crc.polynom result := by
  have hshifted := @cast_lt crc (crc.shiftLeft intBits result 1)
  have hreduced := Nat.xor_lt_two_pow hshifted hvalid.polynom
  rw [cast_shiftLeft] at hreduced
  unfold divide divideBit
  simp only [and_two_pow_ne_zero_iff, cast_shiftLeft, cast_of_lt hreduced]

/-- The next byte meets the top of the register, and no bit of it is lost. -/
theorem introduce_eq (hvalid : crc.Valid) (hresult : result < 2 ^ crc.bits) (byte : BitVec 8) :
    crc.introduce intBits result byte =
      (divideBit crc.bits crc.polynom)^[8] (result ^^^ byte.toNat <<< (crc.bits - 8)) ∧
    result ^^^ byte.toNat <<< (crc.bits - 8) < 2 ^ crc.bits := by
  have hbits := hvalid.bits
  have hbyte : byte.toNat < 2 ^ 8 := byte.isLt
  have hshifted : byte.toNat <<< (crc.bits - 8) < 2 ^ crc.bits := by
    calc byte.toNat <<< (crc.bits - 8) = byte.toNat * 2 ^ (crc.bits - 8) := Nat.shiftLeft_eq ..
      _ < 2 ^ 8 * 2 ^ (crc.bits - 8) := Nat.mul_lt_mul_of_pos_right hbyte (Nat.two_pow_pos _)
      _ = 2 ^ crc.bits := by rw [← pow_add, Nat.add_sub_cancel' hbits]
  have hwide : byte.toNat <<< (crc.bits - 8) < 2 ^ max intBits crc.bits :=
    lt_of_lt_of_le hshifted (Nat.pow_le_pow_right (by norm_num) (Nat.le_max_right ..))
  have hnarrow : byte.toNat < 2 ^ crc.bits :=
    lt_of_lt_of_le hbyte (Nat.pow_le_pow_right (by norm_num) hbits)
  have hxor := Nat.xor_lt_two_pow hresult hshifted
  refine ⟨?_, hxor⟩
  have hdivide : crc.divide intBits = divideBit crc.bits crc.polynom := by
    funext register
    exact divide_eq hvalid
  rw [introduce, hdivide, cast_of_lt hnarrow, shiftLeft, Nat.mod_eq_of_lt hwide, cast_of_lt hxor]

/-- The register shifts by a byte and takes in the new one. -/
theorem mk_introduce (hvalid : crc.Valid) (hresult : result < 2 ^ crc.bits) (byte : BitVec 8) :
    AdjoinRoot.mk (divisor crc.bits crc.polynom) (ofNat (crc.introduce intBits result byte)) =
      AdjoinRoot.mk (divisor crc.bits crc.polynom)
        (ofNat result * X ^ 8 + ofNat byte.toNat * X ^ crc.bits) := by
  have hpos : 0 < crc.bits := lt_of_lt_of_le (by norm_num) hvalid.bits
  obtain ⟨hintroduce, hxor⟩ := @introduce_eq intBits crc result hvalid hresult byte
  rw [hintroduce, mk_divideBit_iterate hpos hvalid.polynom hxor, ofNat_xor, ofNat_shiftLeft,
    add_mul, mul_assoc, ← pow_add, Nat.sub_add_cancel hvalid.bits]

theorem introduce_lt (hvalid : crc.Valid) (hresult : result < 2 ^ crc.bits) (byte : BitVec 8) :
    crc.introduce intBits result byte < 2 ^ crc.bits := by
  obtain ⟨hintroduce, hxor⟩ := @introduce_eq intBits crc result hvalid hresult byte
  rw [hintroduce]
  exact divideBit_iterate_lt hvalid.polynom hxor 8

/-- What the loop through the bytes leaves in the register, from any start. -/
theorem foldl_introduce (hvalid : crc.Valid) (hresult : result < 2 ^ crc.bits)
    (bytes : List (BitVec 8)) :
    bytes.foldl (crc.introduce intBits) result < 2 ^ crc.bits ∧
      AdjoinRoot.mk (divisor crc.bits crc.polynom)
          (ofNat (bytes.foldl (crc.introduce intBits) result)) =
        AdjoinRoot.mk (divisor crc.bits crc.polynom)
          (ofNat result * X ^ (8 * bytes.length) + message bytes * X ^ crc.bits) := by
  induction bytes generalizing result with
  | nil => exact ⟨hresult, by simp [message]⟩
  | cons byte rest ih =>
      obtain ⟨hlt, hclass⟩ := ih (introduce_lt hvalid hresult byte)
      refine ⟨hlt, ?_⟩
      have hdividend : ofNat result * X ^ (8 * (byte :: rest).length) +
          message (byte :: rest) * X ^ crc.bits =
            (ofNat result * X ^ 8 + ofNat byte.toNat * X ^ crc.bits) * X ^ (8 * rest.length) +
              message rest * X ^ crc.bits := by
        rw [List.length_cons, message]
        ring
      rw [List.foldl_cons, hclass, hdividend, map_add, map_mul, mk_introduce hvalid hresult byte,
        ← map_mul, ← map_add]

/-- The checksum of a message is the remainder of the initial value and the
message. -/
theorem ofNat_calculate (hvalid : crc.Valid) (hne : bytes ≠ []) :
    ofNat (crc.calculate intBits (some bytes)) =
      (ofNat crc.initial * X ^ (8 * bytes.length) + message bytes * X ^ crc.bits) %ₘ
        divisor crc.bits crc.polynom := by
  obtain ⟨byte, rest, rfl⟩ := List.exists_cons_of_ne_nil hne
  obtain ⟨hlt, hclass⟩ := @foldl_introduce intBits crc crc.initial hvalid hvalid.initial
    (byte :: rest)
  have hcalculate : crc.calculate intBits (some (byte :: rest)) =
      (byte :: rest).foldl (crc.introduce intBits) (crc.cast crc.initial) := rfl
  rw [hcalculate, cast_of_lt hvalid.initial]
  exact eq_modByMonic hvalid.polynom hlt hclass

end Crc

/-! ## The documented algorithms -/

theorem divisor_crc16 : divisor crc16.bits crc16.polynom = X ^ 16 + X ^ 12 + X ^ 5 + 1 := by
  have hbits : crc16.polynom = 2 ^ 12 ^^^ 2 ^ 5 ^^^ 2 ^ 0 := rfl
  rw [divisor, hbits, ofNat_xor, ofNat_xor, ofNat_two_pow, ofNat_two_pow, ofNat_two_pow, pow_zero,
    ← add_assoc, ← add_assoc]
  rfl

/-- For every width of `int`, the checksums are the polynomial remainders that
their algorithms stand for. -/
theorem checksums_are_remainders (intBits : Nat) (data : List (BitVec 8)) (hne : data ≠ []) :
    ofNat (tbxChecksumCrc16Calculate intBits (some data)) =
        (ofNat 0xFFFF * X ^ (8 * data.length) + message data * X ^ 16) %ₘ
          (X ^ 16 + X ^ 12 + X ^ 5 + 1) ∧
      ofNat (tbxChecksumCrc32Calculate intBits (some data)) =
        (ofNat 0xFFFFFFFF * X ^ (8 * data.length) + message data * X ^ 32) %ₘ
          (X ^ 32 + ofNat 0x04C11DB7) := by
  have hcrc16 := @Crc.ofNat_calculate intBits crc16 data crc16_valid hne
  have hcrc32 := @Crc.ofNat_calculate intBits crc32 data crc32_valid hne
  rw [divisor_crc16] at hcrc16
  exact ⟨hcrc16, hcrc32⟩

/-- The digits from one to nine, on a platform with an `int` of 16 bits. -/
theorem checksums_are_remainders_digits :
    ofNat 0x29B1 = (ofNat 0xFFFF * X ^ 72 +
        message [0x31, 0x32, 0x33, 0x34, 0x35, 0x36, 0x37, 0x38, 0x39] * X ^ 16) %ₘ
          (X ^ 16 + X ^ 12 + X ^ 5 + 1) ∧
      ofNat 0x0376E6E7 = (ofNat 0xFFFFFFFF * X ^ 72 +
        message [0x31, 0x32, 0x33, 0x34, 0x35, 0x36, 0x37, 0x38, 0x39] * X ^ 32) %ₘ
          (X ^ 32 + ofNat 0x04C11DB7) := by
  have hcrc16 : tbxChecksumCrc16Calculate 16
      (some [0x31, 0x32, 0x33, 0x34, 0x35, 0x36, 0x37, 0x38, 0x39]) = 0x29B1 := by
    decide +kernel
  have hcrc32 : tbxChecksumCrc32Calculate 16
      (some [0x31, 0x32, 0x33, 0x34, 0x35, 0x36, 0x37, 0x38, 0x39]) = 0x0376E6E7 := by
    decide +kernel
  rw [← hcrc16, ← hcrc32]
  exact checksums_are_remainders 16 [0x31, 0x32, 0x33, 0x34, 0x35, 0x36, 0x37, 0x38, 0x39]
    (by simp)

end MicroTbx
