import MicroTbx.Foundation.Fips197
import MicroTbx.Crypto.RoundTrip
import Mathlib.Tactic.IntervalCases

/-! # Encryption is the standard cipher

The functions of a round are those of the standard on the matrix whose columns
are the words of the block. The key window of the code holds eight words of
the schedule, and each expansion moves it on by eight, so that the two halves
of the window are the keys of two rounds.
-/

namespace MicroTbx

open DisjointLoop

/-! ## The state and the words of the key -/

/-- The index of a row and column in a block. -/
def cell (row column : Fin 4) : Fin 16 := ⟨row + 4 * column, by omega⟩

/-- The bytes of a block as the standard arranges them. -/
def Block.state (buf : Block) : Fips197.State := fun row column => buf.get (cell row column)

def wordIndex (word : Fin 8) (row : Fin 4) : Fin 32 := ⟨4 * word + row, by omega⟩

/-- The words of a key. -/
def Key.words (key : Key) (word : Fin 8) : Fips197.Word := fun row => key.get (wordIndex word row)

variable {buf : Block} {key : Key}

/-! ## The steps of a round -/

theorem rjSbox_eq : ∀ x : Byte, rjSbox x = Fips197.sbox x := by
  decide +kernel

theorem get_countdown (change : Fin 16 → Byte → Byte) (i : Fin 16) :
    (countdown.foldl (fun buf i => buf.write i (change i (buf.get i))) buf).get i =
      change i (buf.get i) := by
  rw [(confined_write change).foldl_of_mem countdown_nodup (mem_countdown _)]
  simp

theorem aesSubBytes_state : (aesSubBytes buf).state = Fips197.subBytes buf.state := by
  funext row column
  exact (get_countdown (fun _ => rjSbox) _).trans (rjSbox_eq _)

theorem aesShiftRows_state : (aesShiftRows buf).state = Fips197.shiftRows buf.state := by
  funext row column
  fin_cases row <;> fin_cases column <;>
    simp [Block.state, Fips197.shiftRows, aesShiftRows, cell]

theorem rjXtime_standard (x : Byte) : rjXtime x = Fips197.xtime x := rjXtime_eq x

/-- A mixed byte as the standard writes it. -/
theorem mixByte_standard (a b c d : Byte) : mixByte (a ^^^ b ^^^ c ^^^ d) a b =
    Fips197.mul 2 a ^^^ Fips197.mul 3 b ^^^ c ^^^ d := by
  rw [Fips197.two_mul, Fips197.three_mul, ← rjXtime_standard, ← rjXtime_standard, mixByte,
    rjXtime_xor]
  generalize rjXtime a = double
  generalize rjXtime b = other
  simp only [BitVec.xor_assoc, BitVec.xor_comm, xor_left_comm, xor_self_left]

theorem cell_column : ∀ column : Fin 4, cell 0 column ∈ columns ∧
    cell 1 column = cell 0 column + 1 ∧ cell 2 column = cell 0 column + 2 ∧
    cell 3 column = cell 0 column + 3 := by
  decide

theorem columnOf_cell : ∀ row column : Fin 4, columnOf (cell row column) = cell 0 column := by
  decide

/-- Where a row of a column is mixed from. -/
theorem get_aesMixColumns (row column : Fin 4) :
    (aesMixColumns buf).get (cell row column) =
      mixByte (columnSum buf (cell 0 column)) (buf.get (cell row column))
        (buf.get (cell (row + 1) column)) := by
  obtain ⟨hcolumn, h1, h2, h3⟩ := cell_column column
  obtain ⟨h10, h20, h30, h21, h31, h32⟩ := column_ne (cell 0 column)
  have hmem : columnOf (cell row column) ∈ columns := by rwa [columnOf_cell]
  rw [aesMixColumns, confined_mixColumn.foldl_of_mem columns_nodup hmem, columnOf_cell,
    get_mixColumn, ← h1, ← h2, ← h3]
  rw [← h1] at h10 h21 h31
  rw [← h2] at h20 h21 h32
  rw [← h3] at h30 h31 h32
  fin_cases row
  · exact (if_neg h30.symm).trans ((if_neg h20.symm).trans ((if_neg h10.symm).trans (if_pos rfl)))
  · exact (if_neg h31.symm).trans ((if_neg h21.symm).trans (if_pos rfl))
  · exact (if_neg h32.symm).trans (if_pos rfl)
  · exact if_pos rfl

/-- The sum of a column does not depend on the row at which it starts. -/
theorem columnSum_cell (row column : Fin 4) :
    columnSum buf (cell 0 column) = buf.get (cell row column) ^^^ buf.get (cell (row + 1) column) ^^^
      buf.get (cell (row + 2) column) ^^^ buf.get (cell (row + 3) column) := by
  obtain ⟨-, h1, h2, h3⟩ := cell_column column
  have hturn : ∀ a b c d : Byte, a ^^^ b ^^^ c ^^^ d = b ^^^ c ^^^ d ^^^ a := by
    intro a b c d
    ac_rfl
  rw [columnSum, ← h1, ← h2, ← h3]
  fin_cases row
  · rfl
  · exact hturn _ _ _ _
  · exact (hturn _ _ _ _).trans (hturn _ _ _ _)
  · exact ((hturn _ _ _ _).trans (hturn _ _ _ _)).trans (hturn _ _ _ _)

theorem aesMixColumns_state : (aesMixColumns buf).state = Fips197.mixColumns buf.state := by
  funext row column
  rw [Block.state, get_aesMixColumns, columnSum_cell row, mixByte_standard]
  rfl

theorem aesAddRoundKey_state (half : Fin 16 → Byte) (words : Fin 4 → Fips197.Word)
    (hwords : ∀ row column, half (cell row column) = words column row) :
    (aesAddRoundKey buf half).state = Fips197.addRoundKey words buf.state := by
  funext row column
  rw [Fips197.addRoundKey, ← hwords]
  exact get_countdown (fun i byte => byte ^^^ half i) _

/-! ## The key schedule -/

theorem wordIndex_row : ∀ word : Fin 8, wordIndex word 1 = wordIndex word 0 + 1 ∧
    wordIndex word 2 = wordIndex word 0 + 2 ∧ wordIndex word 3 = wordIndex word 0 + 3 := by
  decide

theorem wordIndex_ne : ∀ word other : Fin 8, other ≠ word → ∀ row other_row : Fin 4,
    wordIndex other row ≠ wordIndex word other_row := by
  decide

/-- Adding to a word of the key leaves the other words alone. -/
theorem words_xorWord {word : Fin 8} {source : Fin 4 → Key → Byte}
    (hsource : Outside (wordIndex word 0) source) (other : Fin 8) :
    (xorWord (wordIndex word 0) source key).words other =
      if other = word then Fips197.xorWord (key.words word) fun row => source row key
      else key.words other := by
  obtain ⟨h1, h2, h3⟩ := wordIndex_row word
  obtain ⟨h10, h20, h30, h21, h31, h32⟩ := word_ne (wordIndex word 0)
  funext row
  rw [Key.words, get_xorWord hsource, ← h1, ← h2, ← h3]
  rw [← h1] at h10 h21 h31
  rw [← h2] at h20 h21 h32
  rw [← h3] at h30 h31 h32
  by_cases heq : other = word
  · rw [if_pos heq, heq]
    fin_cases row
    · exact (if_neg h30.symm).trans ((if_neg h20.symm).trans ((if_neg h10.symm).trans (if_pos rfl)))
    · exact (if_neg h31.symm).trans ((if_neg h21.symm).trans (if_pos rfl))
    · exact (if_neg h32.symm).trans (if_pos rfl)
    · exact if_pos rfl
  · have hother := wordIndex_ne word other heq row
    rw [if_neg (hother 3), if_neg (hother 2), if_neg (hother 1), if_neg (hother 0), if_neg heq]
    rfl

/-- The word that a word of the key takes from the one in front of it. -/
theorem previousWord_words (word : Fin 8) (hword : word ≠ 0) :
    (fun row => previousWord (wordIndex word 0) row key) = key.words (word - 1) := by
  funext row
  fin_cases word
  · exact absurd rfl hword
  all_goals fin_cases row <;> rfl

theorem middleWord_words : (fun row => middleWord row key) = Fips197.subWord (key.words 3) := by
  funext row
  rw [Fips197.subWord, ← rjSbox_eq]
  fin_cases row <;> rfl

theorem lastWord_words (rc : Byte) : (fun row => lastWord rc row key) =
    Fips197.xorWord (Fips197.subWord (Fips197.rotWord (key.words 7)))
      fun row => if row = 0 then rc else 0 := by
  funext row
  rw [Fips197.xorWord, Fips197.subWord, ← rjSbox_eq]
  fin_cases row
  · rfl
  all_goals exact (BitVec.xor_zero).symm

/-- The words of the key after each step of an expansion. -/
theorem words_previous (word : Fin 8) (hword : word ≠ 0) (other : Fin 8) :
    (xorWord (wordIndex word 0) (previousWord (wordIndex word 0)) key).words other =
      if other = word then Fips197.xorWord (key.words word) (key.words (word - 1))
      else key.words other := by
  rw [words_xorWord (outside_previousWord _), previousWord_words word hword]

theorem words_middle (other : Fin 8) : (xorWord (wordIndex 4 0) middleWord key).words other =
    if other = 4 then Fips197.xorWord (key.words 4) (Fips197.subWord (key.words 3))
    else key.words other := by
  have hsource : Outside (wordIndex 4 0) middleWord := outside_middleWord
  rw [words_xorWord hsource, middleWord_words]

theorem words_last (rc : Byte) (other : Fin 8) :
    (xorWord (wordIndex 0 0) (lastWord rc) key).words other =
      if other = 0 then Fips197.xorWord (key.words 0)
        (Fips197.xorWord (Fips197.subWord (Fips197.rotWord (key.words 7)))
          fun row => if row = 0 then rc else 0)
      else key.words other := by
  have hsource : Outside (wordIndex 0 0) (lastWord rc) := outside_lastWord rc
  rw [words_xorWord hsource, lastWord_words]

theorem aesExpandEncKey_eq (rc : Byte) : (aesExpandEncKey key rc).1 =
    xorWord (wordIndex 7 0) (previousWord (wordIndex 7 0))
      (xorWord (wordIndex 6 0) (previousWord (wordIndex 6 0))
        (xorWord (wordIndex 5 0) (previousWord (wordIndex 5 0))
          (xorWord (wordIndex 4 0) middleWord
            (xorWord (wordIndex 3 0) (previousWord (wordIndex 3 0))
              (xorWord (wordIndex 2 0) (previousWord (wordIndex 2 0))
                (xorWord (wordIndex 1 0) (previousWord (wordIndex 1 0))
                  (xorWord (wordIndex 0 0) (lastWord rc) key))))))) :=
  rfl

theorem aesExpandEncKey_first (rc : Byte) : (aesExpandEncKey key rc).1.words 0 =
    Fips197.xorWord (key.words 0)
      (Fips197.xorWord (Fips197.subWord (Fips197.rotWord (key.words 7)))
        fun row => if row = 0 then rc else 0) := by
  rw [aesExpandEncKey_eq]
  simp [words_previous, words_middle, words_last]

/-- Each later word after an expansion, from the one in front of it. -/
theorem aesExpandEncKey_succ (rc : Byte) (word : Fin 8) (hword : word ≠ 0) :
    (aesExpandEncKey key rc).1.words word = Fips197.xorWord (key.words word)
      (if word = 4 then Fips197.subWord ((aesExpandEncKey key rc).1.words (word - 1))
        else (aesExpandEncKey key rc).1.words (word - 1)) := by
  rw [aesExpandEncKey_eq]
  fin_cases word
  · exact absurd rfl hword
  all_goals simp [words_previous, words_middle, words_last]

theorem rcon_succ (number : Nat) :
    Fips197.rcon (number + 1) = fun row => if row = 0 then rjXtime^[number] 1 else 0 := by
  have hxtime : rjXtime = Fips197.xtime := funext rjXtime_standard
  rw [hxtime]
  rfl

/-- An expansion moves the key window on by eight words. -/
theorem aesExpandEncKey_expandedKey {words : Fin 8 → Fips197.Word} {group : Nat}
    (hkey : ∀ word : Fin 8, key.words word = Fips197.expandedKey words (8 * group + word))
    (place : Nat) (hplace : place < 8) :
    (aesExpandEncKey key (rjXtime^[group] 1)).1.words ⟨place, hplace⟩ =
      Fips197.expandedKey words (8 * group + place + 8) := by
  rw [Fips197.expandedKey_add]
  -- The words follow from left to right.
  induction place with
  | zero =>
      rw [Nat.add_zero, Fips197.temp_first]
      refine (aesExpandEncKey_first _).trans ?_
      rw [hkey, hkey, rcon_succ]
      rfl
  | succ place ih =>
      have hprevious : (⟨place + 1, hplace⟩ : Fin 8) - 1 = ⟨place, Nat.lt_of_succ_lt hplace⟩ := by
        have hlt : place < 7 := Nat.lt_of_succ_lt_succ hplace
        interval_cases place <;> rfl
      have hback : 8 * group + (place + 1) + 7 = 8 * group + place + 8 := by omega
      rw [aesExpandEncKey_succ _ _ (by simp [Fin.ext_iff]), hkey, hprevious, ih, hback,
        ← Fips197.expandedKey_add]
      congr 1
      split
      · next hmiddle =>
          obtain rfl : place = 3 := Nat.succ.inj (congrArg Fin.val hmiddle)
          exact (Fips197.temp_middle group _).symm
      · next hother =>
          refine (Fips197.temp_other group _ ?_ ?_).symm
          · omega
          · intro hmiddle
            apply hother
            rw [Fin.ext_iff]
            exact (Nat.mod_eq_of_lt hplace).symm.trans hmiddle

/-- After some expansions the key window holds words of the schedule. -/
theorem roundKey_words (count : Nat) (word : Fin 8) :
    (roundKey key (2 * count)).1.words word = Fips197.expandedKey key.words (8 * count + word) := by
  induction count generalizing word with
  | zero =>
      rw [Nat.mul_zero, Nat.zero_add, Fips197.expandedKey_of_lt word.isLt]
      rfl
  | succ count ih =>
      have hnext : roundKey key (2 * (count + 1)) =
          aesExpandEncKey (roundKey key (2 * count)).1 (roundKey key (2 * count)).2 := by
        rw [roundKey_even, roundKey_even, Function.iterate_succ_apply']
      have hshift : 8 * (count + 1) + word = 8 * count + word + 8 := by omega
      rw [hnext, roundKey_constant, hshift]
      exact aesExpandEncKey_expandedKey ih word word.isLt

/-! ## The rounds -/

theorem cell_low (row column : Fin 4) :
    key.low (cell row column) = key.words (Fin.castAdd 4 column) row := by
  fin_cases column <;> fin_cases row <;> rfl

theorem cell_high (row column : Fin 4) :
    key.high (cell row column) = key.words (Fin.natAdd 4 column) row := by
  fin_cases column <;> fin_cases row <;> rfl

/-- The half of the key that a round adds is the key of that round. -/
theorem roundHalf_words (round : Nat) (row column : Fin 4) :
    roundHalf key round (cell row column) = Fips197.roundWords key.words round column row := by
  rw [Fips197.roundWords, roundHalf]
  by_cases hodd : round &&& 1 > 0
  · obtain ⟨count, rfl⟩ : ∃ count, round = 2 * count + 1 := ⟨round / 2, by
      rw [and_one_pos_iff] at hodd
      omega⟩
    have hindex : 4 * (2 * count + 1) + column = 8 * count + (Fin.natAdd 4 column).val := by
      rw [Fin.val_natAdd]
      omega
    rw [if_pos hodd, cell_high, roundKey, if_pos hodd, roundKey_words, hindex]
  · obtain ⟨count, rfl⟩ : ∃ count, round = 2 * count := ⟨round / 2, by
      rw [and_one_pos_iff] at hodd
      omega⟩
    have hindex : 4 * (2 * count) + column = 8 * count + (Fin.castAdd 4 column).val := by
      rw [Fin.val_castAdd]
      omega
    rw [if_neg hodd, cell_low, roundKey_words, hindex]

theorem roundBlock_state (round : Nat) :
    (roundBlock key buf round).state = Fips197.rounds key.words buf.state round := by
  induction round with
  | zero => exact aesAddRoundKey_state _ _ (roundHalf_words 0)
  | succ round ih =>
      rw [roundBlock, aesAddRoundKey_state _ _ (roundHalf_words (round + 1)), aesMixColumns_state,
        aesShiftRows_state, aesSubBytes_state, ih]
      rfl

theorem encryptBlock_state :
    (encryptBlock key buf).state = Fips197.cipher key.words buf.state := by
  rw [encryptBlock, aesAddRoundKey_state _ _ (roundHalf_words 14), aesShiftRows_state,
    aesSubBytes_state, roundBlock_state]
  rfl

/-! ## Buffers -/

variable {data : Bytes}

/-- Each byte of a buffer after its first blocks were enciphered one by one. -/
def ecbEncrypted (key : Key) (count : Nat) (data : Bytes) : Bytes := fun index =>
  if index < 16 * count then
    Fips197.cipher key.words (data.block (index / 16 * 16)).state
      ⟨index % 4, by omega⟩ ⟨index / 4 % 4, by omega⟩
  else data index

theorem mapBlocks_eq (count : Nat) :
    (List.range count).foldl (mapBlock (encryptBlock key)) data = ecbEncrypted key count data := by
  have hconfined := confined_mapBlock (encryptBlock key) (List.range count)
  funext index
  unfold ecbEncrypted
  split
  · next hlt =>
      have hmem : index / tbxCryptoAesBlockSize ∈ List.range count := by
        rw [List.mem_range, tbxCryptoAesBlockSize]
        omega
      have hoffset : index = index / 16 * 16 +
          (cell ⟨index % 4, by omega⟩ ⟨index / 4 % 4, by omega⟩).val := by
        simp only [cell]
        omega
      refine (hconfined.foldl_of_mem List.nodup_range hmem).trans ?_
      rw [mapBlock, ← encryptBlock_state]
      exact Bytes.setBlock_of_mem hoffset
  · next hge =>
      apply hconfined.foldl_of_not_mem
      rw [List.mem_range, tbxCryptoAesBlockSize]
      omega

/-- Encryption is AES-256 in electronic codebook mode, whatever the stack holds.
Both directions leave a buffer alone that is not made of blocks. -/
theorem encryption_is_standard (ctx : AesContext) (data : Bytes) (key : Key) :
    (∀ count, 1 ≤ count → (tbxCryptoAes256Encrypt ctx (some data) (16 * count) (some key)).2 =
      some (ecbEncrypted key count data)) ∧
    ∀ len, len = 0 ∨ len % 16 ≠ 0 →
      (tbxCryptoAes256Encrypt ctx (some data) len (some key)).2 = some data ∧
      (tbxCryptoAes256Decrypt ctx (some data) len (some key)).2 = some data := by
  constructor
  · intro count hcount
    have hvalid : 0 < 16 * count ∧ 16 * count % tbxCryptoAesBlockSize = 0 := by
      rw [tbxCryptoAesBlockSize]
      omega
    have hblocks : 16 * count / tbxCryptoAesBlockSize = count := by
      rw [tbxCryptoAesBlockSize]
      omega
    rw [tbxCryptoAes256Encrypt, cryptBuffer_eq encryptEcb_crypts hvalid, hblocks, mapBlocks_eq]
  · intro len hlen
    have hinvalid : ¬ (0 < len ∧ len % tbxCryptoAesBlockSize = 0) := by
      rw [tbxCryptoAesBlockSize]
      omega
    rw [tbxCryptoAes256Encrypt, tbxCryptoAes256Decrypt, cryptBuffer, if_neg hinvalid, cryptBuffer,
      if_neg hinvalid]
    exact ⟨rfl, rfl⟩

/-- Two blocks, and a buffer that ends inside its second block. -/
theorem encryption_is_standard_two_blocks :
    (tbxCryptoAes256Encrypt ⟨.replicate 32 3, .replicate 32 2, .replicate 32 1⟩
        (some fun index => BitVec.ofNat 8 index) 32 (some (.replicate 32 5))).2 =
      some (ecbEncrypted (.replicate 32 5) 2 fun index => BitVec.ofNat 8 index) ∧
    (tbxCryptoAes256Decrypt ⟨.replicate 32 3, .replicate 32 2, .replicate 32 1⟩
        (some fun index => BitVec.ofNat 8 index) 24 (some (.replicate 32 5))).2 =
      some fun index => BitVec.ofNat 8 index := by
  have hstandard := encryption_is_standard ⟨.replicate 32 3, .replicate 32 2, .replicate 32 1⟩
    (fun index => BitVec.ofNat 8 index) (.replicate 32 5)
  exact ⟨hstandard.1 2 (by decide), (hstandard.2 24 (.inr (by decide))).2⟩

end MicroTbx
