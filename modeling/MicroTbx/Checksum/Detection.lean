import MicroTbx.Checksum.Crc

/-! # Errors that the checksums detect

A message is sent with its checksum behind it, the most significant byte
first. Flipped bits go unnoticed only when their polynomial is a multiple of
the divisor. The divisors have a constant term, so no burst inside their
degree is one; that of the 16-bit checksum vanishes at one, so no odd number
of flipped bits is.
-/

namespace MicroTbx

open Polynomial BitPolynomial

/-! ## Sending and receiving -/

/-- The low bytes of a value, the most significant one first. -/
def bigEndian (value : Nat) : Nat → List (BitVec 8)
  | 0 => []
  | count + 1 => BitVec.ofNat 8 (value >>> (8 * count)) :: bigEndian value count

/-- The value of bytes of which the first is the most significant one. -/
def bigEndianValue : List (BitVec 8) → Nat
  | [] => 0
  | byte :: rest => byte.toNat <<< (8 * rest.length) ||| bigEndianValue rest

/-- The bits at the places where the error pattern has a one are flipped. -/
def corrupt (sent error : List (BitVec 8)) : List (BitVec 8) :=
  List.zipWith (· ^^^ ·) sent error

/-- The receiver of a message with a checksum of this many bytes sees that the
two do not belong together. -/
def Detects (calculate : Option (List (BitVec 8)) → Nat) (count : Nat)
    (data error : List (BitVec 8)) : Prop :=
  let received := corrupt (data ++ bigEndian (calculate (some data)) count) error
  calculate (some (received.take data.length)) ≠ bigEndianValue (received.drop data.length)

instance (calculate : Option (List (BitVec 8)) → Nat) (count : Nat)
    (data error : List (BitVec 8)) : Decidable (Detects calculate count data error) :=
  inferInstanceAs (Decidable (_ ≠ _))

/-- The bit at a position, which counts from the most significant bit of the
first byte. -/
def bitOf (bytes : List (BitVec 8)) (position : Nat) : Bool :=
  (bytes.getD (position / 8) 0).getMsbD (position % 8)

/-- Some bits are flipped, and all of them lie within this many consecutive
ones. -/
def Burst (width : Nat) (error : List (BitVec 8)) : Prop :=
  (∃ position, bitOf error position = true) ∧
    ∃ first, ∀ position, bitOf error position = true →
      first ≤ position ∧ position < first + width

/-- The number of flipped bits. -/
def flippedBits (error : List (BitVec 8)) : Nat :=
  ((Finset.range (8 * error.length)).filter fun position => bitOf error position = true).card

/-! ## The polynomials of frames -/

variable {bytes other : List (BitVec 8)}

theorem message_append : message (bytes ++ other) =
    message bytes * X ^ (8 * other.length) + message other := by
  induction bytes with
  | nil => simp [message]
  | cons byte rest ih =>
      rw [List.cons_append, message, message, ih, List.length_append]
      ring

/-- Flipping bits adds the polynomial of the error. -/
theorem message_corrupt {sent error : List (BitVec 8)} (hlength : sent.length = error.length) :
    message (corrupt sent error) = message sent + message error := by
  induction sent generalizing error with
  | nil =>
      obtain rfl := List.length_eq_zero_iff.mp hlength.symm
      simp [corrupt, message]
  | cons byte rest ih =>
      obtain ⟨flip, flips, rfl⟩ := List.exists_cons_of_length_eq_add_one hlength.symm
      have hrest : rest.length = flips.length := Nat.succ.inj hlength
      have hcorrupt : corrupt (byte :: rest) (flip :: flips) =
          (byte ^^^ flip) :: corrupt rest flips := rfl
      have hzip : (corrupt rest flips).length = rest.length := by
        simp [corrupt, hrest]
      rw [hcorrupt, message, message, message, ih hrest, hzip, BitVec.toNat_xor, ofNat_xor, hrest]
      ring

theorem length_bigEndian (value count : Nat) : (bigEndian value count).length = count := by
  induction count with
  | zero => rfl
  | succ count ih => rw [bigEndian, List.length_cons, ih]

theorem message_bigEndian (value count : Nat) :
    message (bigEndian value count) = ofNat (value % 2 ^ (8 * count)) := by
  induction count with
  | zero => simp [bigEndian, message, Nat.mod_one]
  | succ count ih =>
      rw [bigEndian, message, ih, length_bigEndian, BitVec.toNat_ofNat, Nat.mul_succ,
        ofNat_mod_two_pow]

theorem bigEndianValue_lt (bytes : List (BitVec 8)) :
    bigEndianValue bytes < 2 ^ (8 * bytes.length) := by
  induction bytes with
  | nil => exact Nat.one_pos
  | cons byte rest ih =>
      have hwidth : 8 * (byte :: rest).length = 8 + 8 * rest.length := by
        rw [List.length_cons, Nat.mul_succ, Nat.add_comm]
      rw [hwidth]
      apply Nat.or_lt_two_pow
      · rw [Nat.shiftLeft_eq, pow_add]
        exact Nat.mul_lt_mul_of_pos_right byte.isLt (Nat.two_pow_pos _)
      · exact lt_of_lt_of_le ih (Nat.pow_le_pow_right (by norm_num) (Nat.le_add_left ..))

theorem ofNat_bigEndianValue (bytes : List (BitVec 8)) :
    ofNat (bigEndianValue bytes) = message bytes := by
  induction bytes with
  | nil => exact ofNat_zero
  | cons byte rest ih =>
      have hlow := bigEndianValue_lt rest
      rw [bigEndianValue, message, ← ih]
      ext bit
      rw [coeff_add, coeff_mul_X_pow', coeff_ofNat, coeff_ofNat, coeff_ofNat, Nat.testBit_or,
        Nat.testBit_shiftLeft]
      by_cases hbit : 8 * rest.length ≤ bit
      · have hzero : (bigEndianValue rest).testBit bit = false :=
          Nat.testBit_lt_two_pow (lt_of_lt_of_le hlow (Nat.pow_le_pow_right (by norm_num) hbit))
        simp [hbit, hzero]
      · simp [hbit]

theorem bitOf_cons_of_lt (byte : BitVec 8) {position : Nat} (hlt : position < 8) :
    bitOf (byte :: bytes) position = byte.getMsbD position := by
  rw [bitOf, Nat.div_eq_of_lt hlt, Nat.mod_eq_of_lt hlt]
  rfl

theorem bitOf_cons_add (byte : BitVec 8) (position : Nat) :
    bitOf (byte :: bytes) (position + 8) = bitOf bytes position := by
  rw [bitOf, Nat.add_div_right _ (by norm_num), Nat.add_mod_right]
  rfl

/-- The bits of a message are the coefficients of its polynomial, from the
highest to the lowest. -/
theorem coeff_message (bytes : List (BitVec 8)) (bit : Nat) : (message bytes).coeff bit =
    if bit < 8 * bytes.length ∧ bitOf bytes (8 * bytes.length - 1 - bit) = true then 1 else 0 := by
  induction bytes with
  | nil => simp [message]
  | cons byte rest ih =>
      rw [message, coeff_add, coeff_mul_X_pow', ih, coeff_ofNat, List.length_cons,
        BitVec.testBit_toNat]
      rcases lt_trichotomy bit (8 * rest.length) with hlt | heq | hgt
      · have hposition : 8 * (rest.length + 1) - 1 - bit = 8 * rest.length - 1 - bit + 8 := by omega
        have hbelow : bit < 8 * (rest.length + 1) := by omega
        rw [if_neg (by omega), hposition, bitOf_cons_add, zero_add]
        simp only [hlt, hbelow, true_and]
      all_goals
        rw [if_pos (by omega), if_neg (by omega : ¬ (bit < 8 * rest.length ∧ _)), add_zero]
        by_cases hbelow : bit < 8 * (rest.length + 1)
        · have hposition : 8 * (rest.length + 1) - 1 - bit < 8 := by omega
          have hindex : 8 - 1 - (8 * (rest.length + 1) - 1 - bit) = bit - 8 * rest.length := by omega
          rw [bitOf_cons_of_lt _ hposition, BitVec.getMsbD, hindex]
          simp only [hbelow, hposition, true_and, decide_true, Bool.true_and]
        · have hhigh : byte.getLsbD (bit - 8 * rest.length) = false :=
            BitVec.getLsbD_of_ge _ _ (by omega)
          simp [hbelow, hhigh]

theorem bitOf_lt {position : Nat} (hset : bitOf bytes position = true) :
    position < 8 * bytes.length := by
  by_contra hge
  have hout : bytes.length ≤ position / 8 := by omega
  rw [bitOf, List.getD_eq_default _ _ hout] at hset
  simp at hset

/-! ## What a burst and an odd number of flipped bits look like -/

theorem Burst.message_ne_zero {width : Nat} (hburst : Burst width bytes) : message bytes ≠ 0 := by
  obtain ⟨⟨position, hset⟩, -⟩ := hburst
  have hlt := bitOf_lt hset
  intro hzero
  have hcoeff := coeff_message bytes (8 * bytes.length - 1 - position)
  have hposition : 8 * bytes.length - 1 - (8 * bytes.length - 1 - position) = position := by omega
  rw [hzero, coeff_zero, hposition, if_pos ⟨by omega, hset⟩] at hcoeff
  exact zero_ne_one hcoeff

theorem Burst.window {width : Nat} (hburst : Burst width bytes) :
    ∃ low, ∀ bit, (message bytes).coeff bit ≠ 0 → low ≤ bit ∧ bit < low + width := by
  obtain ⟨-, first, hinside⟩ := hburst
  refine ⟨8 * bytes.length - (first + width), fun bit hcoeff => ?_⟩
  rw [coeff_message, ne_eq, ite_eq_right_iff, not_forall] at hcoeff
  obtain ⟨⟨hbit, hset⟩, -⟩ := hcoeff
  obtain ⟨hle, hlt⟩ := hinside _ hset
  omega

/-- The polynomial of an error at one is the parity of the flipped bits. -/
theorem eval_message (bytes : List (BitVec 8)) :
    (message bytes).eval 1 = (flippedBits bytes : ZMod 2) := by
  have hdegree : (message bytes).natDegree ≤ 8 * bytes.length := by
    rw [natDegree_le_iff_coeff_eq_zero]
    intro bit hbit
    rw [coeff_message, if_neg fun hset => absurd hset.1 (not_lt.mpr hbit.le)]
  have htop : (message bytes).coeff (8 * bytes.length) = 0 := by
    rw [coeff_message, if_neg fun hset => absurd hset.1 (lt_irrefl _)]
  have hcoeff : ∀ bit ∈ Finset.range (8 * bytes.length), (message bytes).coeff bit * 1 ^ bit =
      if bitOf bytes (8 * bytes.length - 1 - bit) = true then 1 else 0 := by
    intro bit hbit
    rw [one_pow, mul_one, coeff_message]
    simp only [Finset.mem_range.mp hbit, true_and]
  rw [eval_eq_sum_range' (Nat.lt_succ_of_le hdegree), Finset.sum_range_succ, htop, zero_mul,
    add_zero, Finset.sum_congr rfl hcoeff,
    Finset.sum_range_reflect (fun position => if bitOf bytes position = true then 1 else 0),
    Finset.sum_boole, flippedBits]

/-! ## Detection -/

namespace Crc

variable {intBits : Nat} {crc : Crc} {data error : List (BitVec 8)} {count : Nat}

theorem calculate_lt (hvalid : crc.Valid) (hne : data ≠ []) :
    crc.calculate intBits (some data) < 2 ^ crc.bits := by
  obtain ⟨byte, rest, rfl⟩ := List.exists_cons_of_ne_nil hne
  have hinitial : crc.cast crc.initial < 2 ^ crc.bits := cast_lt _
  exact (foldl_introduce hvalid hinitial (byte :: rest)).1

/-- An error that goes unnoticed is a multiple of the divisor. -/
theorem detects_of_not_dvd (hvalid : crc.Valid) (hbits : crc.bits = 8 * count) (hne : data ≠ [])
    (hlength : error.length = data.length + count)
    (hdvd : ¬ divisor crc.bits crc.polynom ∣ message error) :
    Detects (crc.calculate intBits) count data error := by
  intro hequal
  apply hdvd
  have hfront : (error.take data.length).length = data.length := by simp [hlength]
  have hback : (error.drop data.length).length = count := by simp [hlength]
  have hsplit : message error = message (error.take data.length) * X ^ crc.bits +
      message (error.drop data.length) := by
    rw [hbits, ← hback, ← message_append, List.take_append_drop]
  have hdata : (corrupt (data ++ bigEndian (crc.calculate intBits (some data)) count) error).take
      data.length = corrupt data (error.take data.length) := by
    rw [corrupt, List.take_zipWith, List.take_left, corrupt]
  have hsum : (corrupt (data ++ bigEndian (crc.calculate intBits (some data)) count) error).drop
      data.length = corrupt (bigEndian (crc.calculate intBits (some data)) count)
        (error.drop data.length) := by
    rw [corrupt, List.drop_zipWith, List.drop_left, corrupt]
  have hsame : (corrupt data (error.take data.length)).length = data.length := by
    simp [corrupt, hlength]
  have hsome : corrupt data (error.take data.length) ≠ [] := by
    rw [ne_eq, ← List.length_eq_zero_iff, hsame, List.length_eq_zero_iff]
    exact hne
  -- Both sides as remainders: they differ by the error.
  rw [hdata, hsum] at hequal
  have hremainders := congrArg ofNat hequal
  rw [ofNat_calculate hvalid hsome, ofNat_bigEndianValue,
    message_corrupt ((length_bigEndian _ _).trans hback.symm), message_bigEndian, ← hbits,
    Nat.mod_eq_of_lt (calculate_lt hvalid hne), ofNat_calculate hvalid hne, hsame,
    message_corrupt hfront.symm, add_mul, ← add_assoc, add_modByMonic, add_right_inj] at hremainders
  rw [hsplit, ← hremainders, add_comm, ← CharTwo.sub_eq_add]
  exact dvd_modByMonic_sub _ _

theorem detects_burst (hvalid : crc.Valid) (hodd : crc.polynom.testBit 0 = true)
    (hbits : crc.bits = 8 * count) (hne : data ≠ []) (hlength : error.length = data.length + count)
    (hburst : Burst crc.bits error) : Detects (crc.calculate intBits) count data error := by
  apply detects_of_not_dvd hvalid hbits hne hlength
  obtain ⟨low, hwindow⟩ := hburst.window
  have hpos : 0 < crc.bits := lt_of_lt_of_le (by norm_num) hvalid.bits
  apply not_dvd_of_window (coeff_zero_divisor hpos hodd) hburst.message_ne_zero
  rwa [natDegree_eq_of_degree_eq_some (degree_divisor hvalid.polynom)]

end Crc

/-- For every message and every width of `int`, both checksums detect all
bursts as wide as they are, and the shorter one all odd errors. -/
theorem checksums_detect (intBits : Nat) (data error : List (BitVec 8)) (hne : data ≠ []) :
    (error.length = data.length + 2 → Burst 16 error ∨ Odd (flippedBits error) →
      Detects (tbxChecksumCrc16Calculate intBits) 2 data error) ∧
    (error.length = data.length + 4 → Burst 32 error →
      Detects (tbxChecksumCrc32Calculate intBits) 4 data error) := by
  constructor
  · rintro hlength (hburst | hodd)
    · exact Crc.detects_burst crc16_valid (by decide) rfl hne hlength hburst
    · apply Crc.detects_of_not_dvd crc16_valid rfl hne hlength
      apply not_dvd_of_odd
      · rw [divisor_crc16]
        simp
        decide
      · rw [eval_message, ZMod.natCast_eq_one_iff_odd]
        exact hodd
  · exact fun hlength hburst => Crc.detects_burst crc32_valid (by decide) rfl hne hlength hburst

/-- Sixteen bits flipped across the boundary of the message, three bits all over
the frame, and a burst in front of a longer checksum. -/
theorem checksums_detect_boundary :
    Detects (tbxChecksumCrc16Calculate 32) 2 [1, 2, 3] [0, 0, 0x01, 0xFF, 0xFE] ∧
      Detects (tbxChecksumCrc16Calculate 32) 2 [1, 2, 3] [0x80, 0, 0x10, 0, 0x01] ∧
      Detects (tbxChecksumCrc32Calculate 32) 4 [1, 2, 3] [0x40, 0, 0, 0x08, 0, 0, 0] := by
  have hburst16 : Burst 16 [0, 0, 0x01, 0xFF, 0xFE] := by
    have hinside : ∀ position, position < 8 * 5 →
        bitOf [0, 0, 0x01, 0xFF, 0xFE] position = true → 23 ≤ position ∧ position < 23 + 16 := by
      decide
    exact ⟨⟨23, by decide⟩, 23, fun position hset => hinside position (bitOf_lt hset) hset⟩
  have hburst32 : Burst 32 [0x40, 0, 0, 0x08, 0, 0, 0] := by
    have hinside : ∀ position, position < 8 * 7 →
        bitOf [0x40, 0, 0, 0x08, 0, 0, 0] position = true → 1 ≤ position ∧ position < 1 + 32 := by
      decide
    exact ⟨⟨1, by decide⟩, 1, fun position hset => hinside position (bitOf_lt hset) hset⟩
  have hodd : Odd (flippedBits [0x80, 0, 0x10, 0, 0x01]) := by decide
  exact ⟨(checksums_detect 32 [1, 2, 3] _ (by simp)).1 rfl (.inl hburst16),
    (checksums_detect 32 [1, 2, 3] _ (by simp)).1 rfl (.inr hodd),
    (checksums_detect 32 [1, 2, 3] _ (by simp)).2 rfl hburst32⟩

end MicroTbx
