import Mathlib.Data.Fin.Basic
import Mathlib.Logic.Basic
import Mathlib.Tactic.Basic
import Mathlib.Algebra.GroupWithZero.Nat

/-! # The AES-256 cipher of FIPS 197

The cipher as the standard states it: bytes are elements of a field with 256
elements, the state is a matrix of four rows and four columns, and the key
schedule is a sequence of words. Nothing here is meant to be fast.
-/

namespace Fips197

abbrev Byte := BitVec 8

/-! ## The field -/

/-- Multiplication by `x`, modulo `x ^ 8 + x ^ 4 + x ^ 3 + x + 1`. -/
def xtime (byte : Byte) : Byte := byte <<< 1 ^^^ if byte.msb then 0x1b else 0

/-- The product of two bytes, from the highest bit of the second to its lowest. -/
def mul (left right : Byte) : Byte :=
  (List.range 8).foldl (fun product bit => xtime product ^^^ if right.getMsbD bit then left else 0) 0

def square (byte : Byte) : Byte := mul byte byte

/-- The multiplicative inverse, with zero for zero: the power 254, which is the
square of the power 127. -/
def inverse (byte : Byte) : Byte := square ((fun power => mul (square power) byte)^[6] byte)

theorem two_mul : ∀ byte : Byte, mul 2 byte = xtime byte := by
  decide +kernel

theorem three_mul : ∀ byte : Byte, mul 3 byte = xtime byte ^^^ byte := by
  decide +kernel

/-! ## The steps of a round -/

/-- The substitution: the inverse, followed by an affine map over the bits. -/
def sbox (byte : Byte) : Byte :=
  let inverted := inverse byte
  inverted ^^^ inverted.rotateLeft 1 ^^^ inverted.rotateLeft 2 ^^^ inverted.rotateLeft 3 ^^^
    inverted.rotateLeft 4 ^^^ 0x63

/-- The state, by row and column. -/
abbrev State := Fin 4 → Fin 4 → Byte

abbrev Word := Fin 4 → Byte

/-- Rows and columns are counted modulo four. -/
local instance four_neZero : NeZero 4 := ⟨Nat.succ_ne_zero 3⟩

def subBytes (state : State) : State := fun row column => sbox (state row column)

def shiftRows (state : State) : State := fun row column => state row (column + row)

/-- Multiply each column by a fixed polynomial. -/
def mixColumns (state : State) : State := fun row column =>
  mul 2 (state row column) ^^^ mul 3 (state (row + 1) column) ^^^ state (row + 2) column ^^^
    state (row + 3) column

/-- Add one word of the schedule to each column. -/
def addRoundKey (words : Fin 4 → Word) (state : State) : State := fun row column =>
  state row column ^^^ words column row

/-! ## The key schedule -/

def subWord (word : Word) : Word := fun index => sbox (word index)

def rotWord (word : Word) : Word := fun index => word (index + 1)

/-- The round constant with this number, which starts from one. -/
def rcon (number : Nat) : Word := fun index => if index = 0 then xtime^[number - 1] 1 else 0

def xorWord (left right : Word) : Word := fun index => left index ^^^ right index

/-- What the word with this index takes from the word in front of it. -/
def temp (i : Nat) (previous : Word) : Word :=
  if i % 8 = 0 then xorWord (subWord (rotWord previous)) (rcon (i / 8))
  else if i % 8 = 4 then subWord previous
  else previous

/-- The words of the schedule for a key of eight words. -/
def expandedKey (key : Fin 8 → Word) (i : Nat) : Word :=
  if hkey : i < 8 then key ⟨i, hkey⟩
  else xorWord (expandedKey key (i - 8)) (temp i (expandedKey key (i - 1)))

/-- The words that a round adds. -/
def roundWords (key : Fin 8 → Word) (round : Nat) (column : Fin 4) : Word :=
  expandedKey key (4 * round + column)

/-- The state after the given number of rounds that mix columns. -/
def rounds (key : Fin 8 → Word) (state : State) : Nat → State
  | 0 => addRoundKey (roundWords key 0) state
  | round + 1 =>
      addRoundKey (roundWords key (round + 1))
        (mixColumns (shiftRows (subBytes (rounds key state round))))

/-- The cipher for a key of eight words, which has fourteen rounds. -/
def cipher (key : Fin 8 → Word) (state : State) : State :=
  addRoundKey (roundWords key 14) (shiftRows (subBytes (rounds key state 13)))

/-! ## The words of the schedule by their place in a group of eight -/

variable {key : Fin 8 → Word}

theorem expandedKey_of_lt {i : Nat} (hkey : i < 8) : expandedKey key i = key ⟨i, hkey⟩ := by
  rw [expandedKey, dif_pos hkey]

theorem expandedKey_add (i : Nat) : expandedKey key (i + 8) =
    xorWord (expandedKey key i) (temp (i + 8) (expandedKey key (i + 7))) := by
  rw [expandedKey, dif_neg (by omega)]
  rfl

theorem temp_first (group : Nat) (previous : Word) : temp (8 * group + 8) previous =
    xorWord (subWord (rotWord previous)) (rcon (group + 1)) := by
  have hnumber : (8 * group + 8) / 8 = group + 1 := by omega
  rw [temp, if_pos (by omega), hnumber]

theorem temp_middle (group : Nat) (previous : Word) :
    temp (8 * group + 4 + 8) previous = subWord previous := by
  rw [temp, if_neg (by omega), if_pos (by omega)]

theorem temp_other (group : Nat) {place : Nat} (previous : Word) (hfirst : place % 8 ≠ 0)
    (hmiddle : place % 8 ≠ 4) : temp (8 * group + place + 8) previous = previous := by
  rw [temp, if_neg (by omega), if_neg (by omega)]

end Fips197
