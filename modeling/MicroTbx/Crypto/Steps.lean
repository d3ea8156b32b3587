import MicroTbx.Foundation.DisjointLoop
import MicroTbx.Crypto.Aes256
import Mathlib.Data.Fintype.Basic
import Mathlib.Tactic.FinCases
import Mathlib.Algebra.GroupWithZero.Nat

/-! # Each step of a round has its inverse

The pairs of functions that encryption and decryption use undo each other:
the two tables, the row shifts, the column mixes, the addition of a key with
itself, and the two directions of the key expansion.
-/

namespace MicroTbx

open DisjointLoop

/-! ## Arrays -/

section Arrays

variable {size : Nat} {array other : Buffer size} {i j : Fin size} {value : Byte}

@[simp] theorem Buffer.get_write :
    (array.write i value).get j = if j = i then value else array.get j := by
  change (array.set i value)[j] = if j = i then value else array[j]
  simp only [Fin.getElem_fin, Vector.getElem_set, Fin.ext_iff, eq_comm]

@[simp] theorem Buffer.get_xorInto :
    (array.xorInto i value).get j = if j = i then array.get i ^^^ value else array.get j :=
  Buffer.get_write

theorem Buffer.get_injective : Function.Injective (@Buffer.get size) := by
  intro array other heq
  apply Vector.ext
  intro i hi
  exact congrFun heq ⟨i, hi⟩

end Arrays

/-! ## Bytes -/

theorem rjSboxInv_rjSbox : ∀ x : Byte, rjSboxInv (rjSbox x) = x := by
  decide +kernel

theorem rjXtime_eq : ∀ x : Byte, rjXtime x = x <<< 1 ^^^ if x.msb then 0x1b else 0 := by
  decide +kernel

theorem xor_self_left (x y : Byte) : x ^^^ (x ^^^ y) = y := by
  rw [← BitVec.xor_assoc, BitVec.xor_self, BitVec.zero_xor]

theorem xor_left_comm (x y z : Byte) : x ^^^ (y ^^^ z) = y ^^^ (x ^^^ z) := by
  rw [← BitVec.xor_assoc, BitVec.xor_comm x y, BitVec.xor_assoc]

/-- Doubling distributes over addition. -/
theorem rjXtime_xor (x y : Byte) : rjXtime (x ^^^ y) = rjXtime x ^^^ rjXtime y := by
  simp only [rjXtime_eq, BitVec.shiftLeft_xor_distrib, BitVec.msb_xor]
  cases x.msb <;> cases y.msb <;>
    simp [BitVec.xor_assoc, BitVec.xor_comm, xor_left_comm]

/-- Halving undoes doubling, so that the round constants run backward. -/
theorem rjXtime_half : ∀ rc : Byte,
    rjXtime rc >>> 1 ^^^ (if rjXtime rc &&& 1 > 0 then 0x8d else 0) = rc := by
  decide +kernel

/-! ## Blocks -/

theorem countdown_nodup : countdown.Nodup := by decide

theorem mem_countdown (i : Fin 16) : i ∈ countdown := by
  simp [countdown]

/-- A loop body that changes one byte from its own value. -/
theorem confined_write (change : Fin 16 → Byte → Byte) :
    Confined Buffer.get id (fun (buf : Block) i => buf.write i (change i (buf.get i)))
      countdown where
  frame := by
    intro i _ buf j hne
    rw [Buffer.get_write]
    exact if_neg hne
  congr := by
    rintro i _ buf other hsame j rfl
    simp only [Buffer.get_write, id_eq, if_true]
    rw [hsame j rfl]

/-- A loop that changes every byte is undone byte by byte. -/
theorem countdown_inverse (change inverse : Fin 16 → Byte → Byte)
    (hundo : ∀ i byte, inverse i (change i byte) = byte) (buf : Block) :
    countdown.foldl (fun buf i => buf.write i (inverse i (buf.get i)))
      (countdown.foldl (fun buf i => buf.write i (change i (buf.get i))) buf) = buf := by
  apply (confined_write change).foldl_inverse (confined_write inverse) Buffer.get_injective
    countdown_nodup (List.Perm.refl _)
  intro i _ buf
  apply Buffer.get_injective
  funext j
  by_cases hj : j = i
  · simp [hj, hundo]
  · simp [hj]

theorem aesSubBytesInv_aesSubBytes (buf : Block) : aesSubBytesInv (aesSubBytes buf) = buf :=
  countdown_inverse (fun _ => rjSbox) (fun _ => rjSboxInv) (fun _ => rjSboxInv_rjSbox) buf

/-- Adding a key twice leaves the block as it was. -/
theorem aesAddRoundKey_aesAddRoundKey (buf : Block) (key : Fin 16 → Byte) :
    aesAddRoundKey (aesAddRoundKey buf key) key = buf := by
  apply countdown_inverse (fun i byte => byte ^^^ key i) (fun i byte => byte ^^^ key i)
  intro i byte
  rw [BitVec.xor_assoc, BitVec.xor_self, BitVec.xor_zero]

theorem aesShiftRowsInv_aesShiftRows (buf : Block) : aesShiftRowsInv (aesShiftRows buf) = buf := by
  apply Buffer.get_injective
  funext i
  fin_cases i <;> simp [aesShiftRowsInv, aesShiftRows]

/-! ## Columns -/

/-- The first index of the column that an index lies in. -/
def columnOf (j : Fin 16) : Fin 16 := ⟨j / 4 * 4, by omega⟩

section Sum

local instance sixteen_neZero : NeZero 16 := ⟨Nat.succ_ne_zero 15⟩

/-- The sum of a column. -/
def columnSum (buf : Block) (i : Fin 16) : Byte :=
  buf.get i ^^^ buf.get (i + 1) ^^^ buf.get (i + 2) ^^^ buf.get (i + 3)

end Sum

/-- A byte of a column, changed by the sum of the column and twice the sum of
the byte and its successor. -/
def mixByte (sum x y : Byte) : Byte := x ^^^ (sum ^^^ rjXtime (x ^^^ y))

theorem column_ne : ∀ i : Fin 16, i + 1 ≠ i ∧ i + 2 ≠ i ∧ i + 3 ≠ i ∧ i + 2 ≠ i + 1 ∧
    i + 3 ≠ i + 1 ∧ i + 3 ≠ i + 2 := by
  decide

theorem get_mixColumn (buf : Block) (i j : Fin 16) :
    (mixColumn buf i).get j =
      if j = i + 3 then mixByte (columnSum buf i) (buf.get (i + 3)) (buf.get i)
      else if j = i + 2 then mixByte (columnSum buf i) (buf.get (i + 2)) (buf.get (i + 3))
      else if j = i + 1 then mixByte (columnSum buf i) (buf.get (i + 1)) (buf.get (i + 2))
      else if j = i then mixByte (columnSum buf i) (buf.get i) (buf.get (i + 1))
      else buf.get j := by
  obtain ⟨h10, h20, h30, h21, h31, h32⟩ := column_ne i
  simp only [mixColumn, mixByte, columnSum, Buffer.get_xorInto, h10, h20, h30, h21, h31, h32,
    if_false]

/-- The correction that `aes_mixColumns_inv` makes before it mixes. -/
def unmixSum (buf : Block) (i j k : Fin 16) : Byte :=
  columnSum buf i ^^^ rjXtime (rjXtime (rjXtime (columnSum buf i) ^^^ buf.get j ^^^ buf.get k))

theorem get_mixColumnInv (buf : Block) (i j : Fin 16) :
    (mixColumnInv buf i).get j =
      if j = i + 3 then
        mixByte (unmixSum buf i (i + 1) (i + 3)) (buf.get (i + 3)) (buf.get i)
      else if j = i + 2 then
        mixByte (unmixSum buf i i (i + 2)) (buf.get (i + 2)) (buf.get (i + 3))
      else if j = i + 1 then
        mixByte (unmixSum buf i (i + 1) (i + 3)) (buf.get (i + 1)) (buf.get (i + 2))
      else if j = i then mixByte (unmixSum buf i i (i + 2)) (buf.get i) (buf.get (i + 1))
      else buf.get j := by
  obtain ⟨h10, h20, h30, h21, h31, h32⟩ := column_ne i
  simp only [mixColumnInv, mixByte, unmixSum, columnSum, Buffer.get_xorInto, h10, h20, h30, h21,
    h31, h32, if_false]

section MixedBytes

variable (sum a b c d : Byte)

theorem xor_xor_cancel : (a ^^^ b) ^^^ (b ^^^ c) = a ^^^ c := by
  rw [BitVec.xor_assoc, xor_self_left]

/-- The column sum cancels between two mixed bytes. -/
theorem mixByte_xor :
    mixByte sum a b ^^^ mixByte sum c d = (a ^^^ c) ^^^ rjXtime ((a ^^^ b) ^^^ (c ^^^ d)) := by
  rw [rjXtime_xor]
  generalize hab : rjXtime (a ^^^ b) = ab
  generalize hcd : rjXtime (c ^^^ d) = cd
  simp only [mixByte, hab, hcd]
  simp only [BitVec.xor_assoc, xor_left_comm, xor_self_left]

/-- Mixing keeps the sum of a column. -/
theorem mixByte_sum :
    mixByte sum a b ^^^ mixByte sum b c ^^^ mixByte sum c d ^^^ mixByte sum d a =
      a ^^^ b ^^^ c ^^^ d := by
  have hsame : (c ^^^ d) ^^^ (d ^^^ a) = (a ^^^ b) ^^^ (b ^^^ c) := by
    rw [xor_xor_cancel, xor_xor_cancel, BitVec.xor_comm]
  rw [BitVec.xor_assoc _ (mixByte sum c d), mixByte_xor, mixByte_xor, hsame]
  generalize rjXtime ((a ^^^ b) ^^^ (b ^^^ c)) = double
  simp [BitVec.xor_assoc, BitVec.xor_comm, xor_left_comm]

/-- Mixing once more with the corrected sum gives the byte back. -/
theorem mixByte_mixByte (hsum : sum = a ^^^ b ^^^ c ^^^ d) :
    mixByte (sum ^^^ rjXtime (rjXtime (rjXtime sum ^^^ mixByte sum a b ^^^ mixByte sum c d)))
      (mixByte sum a b) (mixByte sum b c) = a := by
  have hdouble : rjXtime sum ^^^ mixByte sum a b ^^^ mixByte sum c d = a ^^^ c := by
    have hpairs : (a ^^^ b) ^^^ (c ^^^ d) = sum := by rw [hsum, ← BitVec.xor_assoc]
    rw [BitVec.xor_assoc, mixByte_xor, hpairs, BitVec.xor_comm, BitVec.xor_assoc, BitVec.xor_self,
      BitVec.xor_zero]
  rw [hdouble, mixByte, mixByte_xor, xor_xor_cancel, rjXtime_xor (a ^^^ b)]
  generalize rjXtime (rjXtime (a ^^^ c)) = quadruple
  rw [mixByte]
  generalize rjXtime (a ^^^ b) = double
  simp only [BitVec.xor_assoc, BitVec.xor_comm, xor_left_comm, xor_self_left, BitVec.xor_self,
    BitVec.xor_zero]

end MixedBytes

theorem columnSum_mixColumn (buf : Block) (i : Fin 16) :
    columnSum (mixColumn buf i) i = columnSum buf i := by
  obtain ⟨h10, h20, h30, h21, h31, h32⟩ := column_ne i
  rw [columnSum]
  simp only [get_mixColumn, h10, h20, h21, h10.symm, h20.symm, h30.symm, h21.symm, h31.symm,
    h32.symm, if_false, if_true]
  exact mixByte_sum ..

/-- A column mixed back is the column it was. -/
theorem mixColumnInv_mixColumn (buf : Block) (i : Fin 16) :
    mixColumnInv (mixColumn buf i) i = buf := by
  obtain ⟨h10, h20, h30, h21, h31, h32⟩ := column_ne i
  have hswap : ∀ x y z : Byte, x ^^^ y ^^^ z = x ^^^ z ^^^ y := fun x y z => by
    rw [BitVec.xor_assoc, BitVec.xor_comm y, BitVec.xor_assoc]
  apply Buffer.get_injective
  funext j
  rw [get_mixColumnInv]
  simp only [unmixSum, columnSum_mixColumn, get_mixColumn, h10, h20, h21, h10.symm, h20.symm,
    h30.symm, h21.symm, h31.symm, h32.symm, if_false, if_true]
  generalize hsum : columnSum buf i = sum
  rw [columnSum] at hsum
  split_ifs with h3 h2 h1 h0
  · rw [h3, hswap (rjXtime sum)]
    apply mixByte_mixByte
    rw [← hsum]
    ac_rfl
  · rw [h2, hswap (rjXtime sum)]
    apply mixByte_mixByte
    rw [← hsum]
    ac_rfl
  · rw [h1]
    apply mixByte_mixByte
    rw [← hsum]
    ac_rfl
  · rw [h0]
    apply mixByte_mixByte
    exact hsum.symm
  · rfl

theorem columns_nodup : columns.Nodup := by decide

/-- The loop body of a column stays inside the column. -/
theorem columnOf_eq : ∀ i ∈ columns, columnOf i = i ∧ columnOf (i + 1) = i ∧
    columnOf (i + 2) = i ∧ columnOf (i + 3) = i := by
  decide

theorem confined_mixColumn : Confined Buffer.get columnOf mixColumn columns where
  frame := by
    intro i hi buf j hne
    obtain ⟨h0, h1, h2, h3⟩ := columnOf_eq i hi
    rw [get_mixColumn, if_neg, if_neg, if_neg, if_neg]
    all_goals
      rintro rfl
      contradiction
  congr := by
    intro i hi buf other hsame j hj
    obtain ⟨h0, h1, h2, h3⟩ := columnOf_eq i hi
    rw [get_mixColumn, get_mixColumn, columnSum, columnSum, hsame _ h0, hsame _ h1, hsame _ h2,
      hsame _ h3, hsame j hj]

theorem confined_mixColumnInv : Confined Buffer.get columnOf mixColumnInv columns where
  frame := by
    intro i hi buf j hne
    obtain ⟨h0, h1, h2, h3⟩ := columnOf_eq i hi
    rw [get_mixColumnInv, if_neg, if_neg, if_neg, if_neg]
    all_goals
      rintro rfl
      contradiction
  congr := by
    intro i hi buf other hsame j hj
    obtain ⟨h0, h1, h2, h3⟩ := columnOf_eq i hi
    rw [get_mixColumnInv, get_mixColumnInv, unmixSum, unmixSum, unmixSum, unmixSum, columnSum,
      columnSum, hsame _ h0, hsame _ h1, hsame _ h2, hsame _ h3, hsame j hj]

theorem aesMixColumnsInv_aesMixColumns (buf : Block) :
    aesMixColumnsInv (aesMixColumns buf) = buf :=
  confined_mixColumn.foldl_inverse confined_mixColumnInv Buffer.get_injective columns_nodup
    (List.Perm.refl _) (fun i _ store => mixColumnInv_mixColumn store i)

/-! ## Key expansion -/

section Sources

local instance thirtyTwo_neZero : NeZero 32 := ⟨Nat.succ_ne_zero 31⟩

/-- What is added to a word depends on bytes outside of it. -/
def Outside (i : Fin 32) (source : Fin 4 → Key → Byte) : Prop :=
  ∀ n k other, (∀ j, j ≠ i → j ≠ i + 1 → j ≠ i + 2 → j ≠ i + 3 → k.get j = other.get j) →
    source n k = source n other

end Sources

theorem word_ne : ∀ i : Fin 32, i + 1 ≠ i ∧ i + 2 ≠ i ∧ i + 3 ≠ i ∧ i + 2 ≠ i + 1 ∧
    i + 3 ≠ i + 1 ∧ i + 3 ≠ i + 2 := by
  decide

section Words

variable {i : Fin 32} {source : Fin 4 → Key → Byte}

theorem get_xorWord (hsource : Outside i source) (k : Key) (j : Fin 32) :
    (xorWord i source k).get j =
      if j = i + 3 then k.get (i + 3) ^^^ source 3 k
      else if j = i + 2 then k.get (i + 2) ^^^ source 2 k
      else if j = i + 1 then k.get (i + 1) ^^^ source 1 k
      else if j = i then k.get i ^^^ source 0 k
      else k.get j := by
  obtain ⟨h10, h20, h30, h21, h31, h32⟩ := word_ne i
  have hfirst : ∀ n value, source n (k.xorInto i value) = source n k := by
    intro n value
    apply hsource
    intro j h0 _ _ _
    rw [Buffer.get_xorInto, if_neg h0]
  have hsecond : ∀ n value other, source n ((k.xorInto i value).xorInto (i + 1) other) =
      source n k := by
    intro n value other
    rw [← hfirst n value]
    apply hsource
    intro j _ h1 _ _
    rw [Buffer.get_xorInto, if_neg h1]
  have hthird : ∀ n value other last, source n (((k.xorInto i value).xorInto (i + 1) other).xorInto
      (i + 2) last) = source n k := by
    intro n value other last
    rw [← hsecond n value other]
    apply hsource
    intro j _ _ h2 _
    rw [Buffer.get_xorInto, if_neg h2]
  simp only [xorWord, hfirst, hsecond, hthird, Buffer.get_xorInto, h10, h20, h30, h21, h31, h32,
    if_false]

/-- Adding the same word twice leaves the key as it was. -/
theorem xorWord_xorWord (hsource : Outside i source) (k : Key) :
    xorWord i source (xorWord i source k) = k := by
  obtain ⟨h10, h20, h30, h21, h31, h32⟩ := word_ne i
  have hsame : ∀ n, source n (xorWord i source k) = source n k := by
    intro n
    apply hsource
    intro j h0 h1 h2 h3
    rw [get_xorWord hsource, if_neg h3, if_neg h2, if_neg h1, if_neg h0]
  apply Buffer.get_injective
  funext j
  rw [get_xorWord hsource]
  simp only [hsame, get_xorWord hsource, h10, h20, h21, h10.symm, h20.symm, h30.symm, h21.symm,
    h31.symm, h32.symm, if_false, if_true]
  split_ifs with h3 h2 h1 h0
  · rw [h3, BitVec.xor_assoc, BitVec.xor_self, BitVec.xor_zero]
  · rw [h2, BitVec.xor_assoc, BitVec.xor_self, BitVec.xor_zero]
  · rw [h1, BitVec.xor_assoc, BitVec.xor_self, BitVec.xor_zero]
  · rw [h0, BitVec.xor_assoc, BitVec.xor_self, BitVec.xor_zero]
  · rfl

end Words

/-- The four distances at which a word reads the word in front of it. -/
theorem previous_ne : ∀ i : Fin 32, ∀ back ∈ [(1 : Fin 32), 2, 3, 4],
    i - back ≠ i ∧ i - back ≠ i + 1 ∧ i - back ≠ i + 2 ∧ i - back ≠ i + 3 := by
  decide

theorem outside_previousWord (i : Fin 32) : Outside i (previousWord i) := by
  have hread : ∀ back ∈ [(1 : Fin 32), 2, 3, 4], ∀ k other : Key,
      (∀ j, j ≠ i → j ≠ i + 1 → j ≠ i + 2 → j ≠ i + 3 → k.get j = other.get j) →
        k.get (i - back) = other.get (i - back) := by
    intro back hback k other hsame
    obtain ⟨h0, h1, h2, h3⟩ := previous_ne i back hback
    exact hsame _ h0 h1 h2 h3
  intro n k other hsame
  unfold previousWord
  split
  · exact hread 4 (by simp) k other hsame
  · exact hread 3 (by simp) k other hsame
  · exact hread 2 (by simp) k other hsame
  · exact hread 1 (by simp) k other hsame

theorem outside_middleWord : Outside 16 middleWord := by
  intro n k other hsame
  unfold middleWord
  split
  · rw [hsame 12] <;> decide
  · rw [hsame 13] <;> decide
  · rw [hsame 14] <;> decide
  · rw [hsame 15] <;> decide

theorem outside_lastWord (rc : Byte) : Outside 0 (lastWord rc) := by
  intro n k other hsame
  unfold lastWord
  split
  · rw [hsame 29] <;> decide
  · rw [hsame 30] <;> decide
  · rw [hsame 31] <;> decide
  · rw [hsame 28] <;> decide

/-- The key schedule runs backward. -/
theorem aesExpandDecKey_aesExpandEncKey (k : Key) (rc : Byte) :
    aesExpandDecKey (aesExpandEncKey k rc).1 (aesExpandEncKey k rc).2 = (k, rc) := by
  have hconstant : (aesExpandEncKey k rc).2 = rjXtime rc := rfl
  rw [hconstant]
  simp only [aesExpandDecKey, aesExpandEncKey, List.foldl_cons, List.foldl_nil,
    xorWord_xorWord (outside_previousWord _), xorWord_xorWord outside_middleWord]
  rw [rjXtime_half, xorWord_xorWord (outside_lastWord rc)]

/-! ## Copying the key -/

/-- The loop index that copies a byte of the key. -/
def copyIndex (j : Fin 32) : Fin 16 := ⟨j % 16, by omega⟩

/-- The two bytes that one pass copies. -/
def copyBytes (key cpk : Key) (i : Fin 16) : Key :=
  (cpk.write (Fin.castAdd 16 i) (key.get (Fin.castAdd 16 i))).write (Fin.natAdd 16 i)
    (key.get (Fin.natAdd 16 i))

theorem get_copyBytes (key cpk : Key) (i : Fin 16) (j : Fin 32) :
    (copyBytes key cpk i).get j = if copyIndex j = i then key.get j else cpk.get j := by
  have hcopy : copyIndex j = i ↔ j = Fin.castAdd 16 i ∨ j = Fin.natAdd 16 i := by
    have hi := i.isLt
    have hj := j.isLt
    simp only [copyIndex, Fin.ext_iff, Fin.val_castAdd, Fin.val_natAdd]
    omega
  rw [copyBytes, Buffer.get_write, Buffer.get_write]
  by_cases hcopied : copyIndex j = i
  · rw [if_pos hcopied]
    split_ifs with hhigh hlow
    · rw [hhigh]
    · rw [hlow]
    · exact ((hcopy.mp hcopied).elim hlow hhigh).elim
  · rw [if_neg hcopied]
    rw [hcopy, not_or] at hcopied
    rw [if_neg hcopied.2, if_neg hcopied.1]

theorem confined_copyBytes (key : Key) :
    Confined Buffer.get copyIndex (copyBytes key) countdown where
  frame := by
    intro i _ cpk j hne
    rw [get_copyBytes, if_neg hne]
  congr := by
    intro i _ cpk other _ j hj
    rw [get_copyBytes, get_copyBytes, if_pos hj, if_pos hj]

/-- The block is combined with the first half of the key, and the key copied. -/
theorem aesAddRoundKeyCpy_eq (buf : Block) (key cpk : Key) :
    aesAddRoundKeyCpy buf key cpk = (aesAddRoundKey buf key.low, key) := by
  have hloop : ∀ (steps : List (Fin 16)) (buf : Block) (cpk : Key),
      steps.foldl (fun pair i =>
        let cpk := pair.2.write (Fin.castAdd 16 i) (key.get (Fin.castAdd 16 i))
        let buf := pair.1.xorInto i (cpk.get (Fin.castAdd 16 i))
        let cpk := cpk.write (Fin.natAdd 16 i) (key.get (Fin.natAdd 16 i))
        (buf, cpk)) (buf, cpk) =
      (steps.foldl (fun buf i => buf.xorInto i (key.low i)) buf,
        steps.foldl (copyBytes key) cpk) := by
    intro steps
    induction steps with
    | nil => exact fun _ _ => rfl
    | cons i rest ih =>
        intro buf cpk
        rw [List.foldl_cons, ih]
        simp only [Buffer.get_write, if_true]
        rfl
  rw [aesAddRoundKeyCpy, hloop, Prod.mk.injEq]
  refine ⟨rfl, ?_⟩
  apply Buffer.get_injective
  funext j
  rw [(confined_copyBytes key).foldl_of_mem countdown_nodup (mem_countdown _), get_copyBytes,
    if_pos rfl]

end MicroTbx
