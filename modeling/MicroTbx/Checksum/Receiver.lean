import MicroTbx.Checksum.Detection

/-! # Checking a message together with its checksum

A receiver may run the checksum over the message and the bytes behind it. The
register then meets its own value byte by byte and ends at zero. It ends there
for no other bytes, because shifting the register by its width loses nothing.
-/

namespace MicroTbx

open Polynomial BitPolynomial

/-! ## The value of bytes -/

theorem bigEndianValue_shiftRight (byte : BitVec 8) (rest : List (BitVec 8)) :
    bigEndianValue (byte :: rest) >>> (8 * rest.length) = byte.toNat := by
  rw [bigEndianValue, Nat.shiftRight_or_distrib, Nat.shiftLeft_shiftRight,
    Nat.shiftRight_eq_zero _ _ (bigEndianValue_lt rest), Nat.or_zero]

theorem bigEndianValue_mod (byte : BitVec 8) (rest : List (BitVec 8)) :
    bigEndianValue (byte :: rest) % 2 ^ (8 * rest.length) = bigEndianValue rest := by
  rw [bigEndianValue, Nat.or_mod_two_pow, Nat.shiftLeft_eq, Nat.mul_mod_left, Nat.zero_or,
    Nat.mod_eq_of_lt (bigEndianValue_lt rest)]

/-- Bytes are determined by their value and their number. -/
theorem bigEndianValue_injective {bytes other : List (BitVec 8)}
    (hlength : bytes.length = other.length)
    (hvalue : bigEndianValue bytes = bigEndianValue other) : bytes = other := by
  induction bytes generalizing other with
  | nil => exact (List.length_eq_zero_iff.mp hlength.symm).symm
  | cons byte rest ih =>
      obtain ⟨head, tail, rfl⟩ := List.exists_cons_of_length_eq_add_one hlength.symm
      have hrest : rest.length = tail.length := Nat.succ.inj hlength
      have hhead : byte = head := by
        apply BitVec.eq_of_toNat_eq
        rw [← bigEndianValue_shiftRight byte rest, ← bigEndianValue_shiftRight head tail, hvalue,
          hrest]
      have htail : rest = tail := by
        apply ih hrest
        rw [← bigEndianValue_mod byte rest, ← bigEndianValue_mod head tail, hvalue, hrest]
      rw [hhead, htail]

/-- The bytes of a value are the ones whose polynomial it is. -/
theorem eq_bigEndian_iff {bytes : List (BitVec 8)} {value count : Nat}
    (hlength : bytes.length = count) (hvalue : value < 2 ^ (8 * count)) :
    bytes = bigEndian value count ↔ ofNat value = message bytes := by
  have hmessage : message (bigEndian value count) = ofNat value := by
    rw [message_bigEndian, Nat.mod_eq_of_lt hvalue]
  constructor
  · intro hbytes
    rw [hbytes, hmessage]
  · intro hsame
    apply bigEndianValue_injective (hlength.trans (length_bigEndian value count).symm)
    apply ofNat_injective
    rw [ofNat_bigEndianValue, ofNat_bigEndianValue, hmessage, hsame]

/-! ## The register behind the message -/

namespace Crc

variable {intBits : Nat} {crc : Crc} {result : Nat} {data trailer : List (BitVec 8)} {count : Nat}

/-- Bytes as wide as the register are added to it and shifted through. -/
theorem mk_foldl_trailer (hvalid : crc.Valid) (hresult : result < 2 ^ crc.bits)
    (hlength : 8 * trailer.length = crc.bits) :
    AdjoinRoot.mk (divisor crc.bits crc.polynom)
        (ofNat (trailer.foldl (crc.introduce intBits) result)) =
      AdjoinRoot.mk (divisor crc.bits crc.polynom)
        ((ofNat result + message trailer) * X ^ crc.bits) := by
  obtain ⟨-, hclass⟩ := @foldl_introduce intBits crc result hvalid hresult trailer
  rw [hclass, hlength, add_mul]

/-- A register is left at zero by the bytes of its own value only. -/
theorem foldl_trailer_eq_zero_iff (hvalid : crc.Valid) (hodd : crc.polynom.testBit 0 = true)
    (hresult : result < 2 ^ crc.bits) (hlength : 8 * trailer.length = crc.bits) :
    trailer.foldl (crc.introduce intBits) result = 0 ↔ ofNat result = message trailer := by
  have hpos : 0 < crc.bits := lt_of_lt_of_le (by norm_num) hvalid.bits
  have hclass := @mk_foldl_trailer intBits crc result trailer hvalid hresult hlength
  constructor
  · intro hzero
    rw [hzero, ofNat_zero, map_zero, eq_comm, AdjoinRoot.mk_eq_zero] at hclass
    have hcoprime := isCoprime_X_pow (coeff_zero_divisor hpos hodd) crc.bits
    have hdvd := hcoprime.dvd_of_dvd_mul_right hclass
    -- The divisor is longer than the register and the trailer.
    have hdegree : (ofNat result + message trailer).degree <
        (divisor crc.bits crc.polynom).degree := by
      rw [degree_divisor hvalid.polynom]
      apply lt_of_le_of_lt (degree_add_le _ _)
      apply max_lt (degree_ofNat_lt hresult)
      rw [← ofNat_bigEndianValue]
      exact degree_ofNat_lt (hlength ▸ bigEndianValue_lt trailer)
    exact CharTwo.add_eq_zero.mp (eq_zero_of_dvd_of_degree_lt hdvd hdegree)
  · intro hsame
    rw [hsame, CharTwo.add_self_eq_zero, zero_mul] at hclass
    apply ofNat_injective
    have hlt := (@foldl_introduce intBits crc result hvalid hresult trailer).1
    rw [eq_modByMonic hvalid.polynom hlt hclass, zero_modByMonic, ofNat_zero]

theorem calculate_append (hne : data ≠ []) :
    crc.calculate intBits (some (data ++ trailer)) =
      trailer.foldl (crc.introduce intBits) (crc.calculate intBits (some data)) := by
  obtain ⟨byte, rest, rfl⟩ := List.exists_cons_of_ne_nil hne
  exact List.foldl_append

/-- The checksum of a message and bytes behind it is zero exactly when these
are the checksum of the message. -/
theorem calculate_append_eq_zero_iff (hvalid : crc.Valid) (hodd : crc.polynom.testBit 0 = true)
    (hbits : crc.bits = 8 * count) (hne : data ≠ []) (hlength : trailer.length = count) :
    crc.calculate intBits (some (data ++ trailer)) = 0 ↔
      trailer = bigEndian (crc.calculate intBits (some data)) count := by
  have hlt := @calculate_lt intBits crc data hvalid hne
  have hwidth : 8 * trailer.length = crc.bits := by rw [hlength, hbits]
  rw [calculate_append hne, foldl_trailer_eq_zero_iff hvalid hodd hlt hwidth,
    eq_bigEndian_iff hlength (hbits ▸ hlt)]

end Crc

/-- For every message and every width of `int`, a receiver that runs a checksum
over message and trailer ends at zero exactly when the trailer is the checksum
of the message. -/
theorem receiver_checks (intBits : Nat) (data trailer : List (BitVec 8)) (hne : data ≠ []) :
    (trailer.length = 2 →
      (tbxChecksumCrc16Calculate intBits (some (data ++ trailer)) = 0 ↔
        trailer = bigEndian (tbxChecksumCrc16Calculate intBits (some data)) 2)) ∧
    (trailer.length = 4 →
      (tbxChecksumCrc32Calculate intBits (some (data ++ trailer)) = 0 ↔
        trailer = bigEndian (tbxChecksumCrc32Calculate intBits (some data)) 4)) := by
  constructor
  · exact Crc.calculate_append_eq_zero_iff crc16_valid (by decide) rfl hne
  · exact Crc.calculate_append_eq_zero_iff crc32_valid (by decide) rfl hne

/-- The checksums of the digits from one to nine behind them. -/
theorem receiver_checks_digits :
    tbxChecksumCrc16Calculate 16
        (some ([0x31, 0x32, 0x33, 0x34, 0x35, 0x36, 0x37, 0x38, 0x39] ++ [0x29, 0xB1])) = 0 ∧
      tbxChecksumCrc32Calculate 16
        (some ([0x31, 0x32, 0x33, 0x34, 0x35, 0x36, 0x37, 0x38, 0x39] ++
          [0x03, 0x76, 0xE6, 0xE7])) = 0 := by
  have hcrc16 : [0x29, 0xB1] = bigEndian (tbxChecksumCrc16Calculate 16
      (some [0x31, 0x32, 0x33, 0x34, 0x35, 0x36, 0x37, 0x38, 0x39])) 2 := by
    decide +kernel
  have hcrc32 : [0x03, 0x76, 0xE6, 0xE7] = bigEndian (tbxChecksumCrc32Calculate 16
      (some [0x31, 0x32, 0x33, 0x34, 0x35, 0x36, 0x37, 0x38, 0x39])) 4 := by
    decide +kernel
  exact ⟨((receiver_checks 16 _ _ (by simp)).1 rfl).mpr hcrc16,
    ((receiver_checks 16 _ _ (by simp)).2 rfl).mpr hcrc32⟩

end MicroTbx
