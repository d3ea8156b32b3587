import MicroTbx.Crypto.Steps
import Mathlib.Data.Finite.Prod

/-! # Decryption undoes encryption

The round keys and the blocks between the rounds are sequences. Encryption
walks along them and decryption walks back, expanding the key in the round in
which encryption did. A buffer is worked on block by block with a context that
is overwritten for each block.
-/

namespace MicroTbx

open DisjointLoop

/-! ## The sequences of a block -/

/-- The key and the round constant in a round: every even round expands. -/
def roundKey (key : Key) : Nat → Key × Byte
  | 0 => (key, 1)
  | round + 1 =>
      if (round + 1) &&& 1 > 0 then roundKey key round
      else aesExpandEncKey (roundKey key round).1 (roundKey key round).2

/-- The half of the key that a round adds. -/
def roundHalf (key : Key) (round : Nat) : Fin 16 → Byte :=
  if round &&& 1 > 0 then (roundKey key round).1.high else (roundKey key round).1.low

/-- The block after a round. -/
def roundBlock (key : Key) (buf : Block) : Nat → Block
  | 0 => aesAddRoundKey buf (roundHalf key 0)
  | round + 1 =>
      aesAddRoundKey (aesMixColumns (aesShiftRows (aesSubBytes (roundBlock key buf round))))
        (roundHalf key (round + 1))

/-- The encryption of a block: the last round does not mix. -/
def encryptBlock (key : Key) (buf : Block) : Block :=
  aesAddRoundKey (aesShiftRows (aesSubBytes (roundBlock key buf 13))) (roundHalf key 14)

variable {key : Key} {buf : Block} {ctx : AesContext} {round : Nat}

theorem and_one_pos_iff : round &&& 1 > 0 ↔ round % 2 = 1 := by
  rw [Nat.and_one_is_mod]
  omega

/-- The state of the encryption loop before the next round. -/
def encryptState (key : Key) (buf : Block) (round : Nat) : CipherState where
  buf := roundBlock key buf round
  key := (roundKey key round).1
  rcon := (roundKey key round).2

theorem encryptRound_eq :
    encryptRound (encryptState key buf round) (round + 1) = encryptState key buf (round + 1) := by
  unfold encryptRound encryptState
  rw [roundBlock, roundHalf, roundKey]
  split <;> rfl

theorem encryptRounds_eq (count : Nat) :
    (List.range' 1 count).foldl encryptRound (encryptState key buf 0) =
      encryptState key buf count := by
  induction count with
  | zero => rfl
  | succ count ih =>
      rw [List.range'_1_concat, List.foldl_append, ih, Nat.add_comm 1 count]
      exact encryptRound_eq

/-- Encryption depends on the key of the context and on nothing else in it. -/
theorem tbxAes256EncryptEcb_eq :
    tbxAes256EncryptEcb ctx buf =
      ({ ctx with key := (roundKey ctx.enckey 14).1 }, encryptBlock ctx.enckey buf) := by
  have hrounds := @encryptRounds_eq ctx.enckey buf 13
  have hstart : encryptState ctx.enckey buf 0 =
      ⟨aesAddRoundKey buf ctx.enckey.low, ctx.enckey, 1⟩ := rfl
  rw [hstart] at hrounds
  rw [tbxAes256EncryptEcb, aesAddRoundKeyCpy_eq]
  simp only [hrounds]
  rfl

/-! ## Walking back -/

/-- The state of the decryption loop before it takes back a round. -/
def decryptState (key : Key) (buf : Block) (round : Nat) : CipherState where
  buf := roundBlock key buf round
  key := (roundKey key (round + 1)).1
  rcon := (roundKey key (round + 1)).2

/-- Taking back a round restores its block and the key of the round itself. -/
theorem decryptRound_eq :
    decryptRound (decryptState key buf (round + 1)) (round + 1) = decryptState key buf round := by
  have hundo : ∀ half : Fin 16 → Byte, roundHalf key (round + 1) = half →
      aesSubBytesInv (aesShiftRowsInv (aesMixColumnsInv
        (aesAddRoundKey (roundBlock key buf (round + 1)) half))) = roundBlock key buf round := by
    rintro half rfl
    rw [roundBlock, aesAddRoundKey_aesAddRoundKey, aesMixColumnsInv_aesMixColumns,
      aesShiftRowsInv_aesShiftRows, aesSubBytesInv_aesSubBytes]
  have hnext : roundKey key (round + 2) = if (round + 2) &&& 1 > 0 then roundKey key (round + 1)
      else aesExpandEncKey (roundKey key (round + 1)).1 (roundKey key (round + 1)).2 := rfl
  rw [decryptRound, decryptState, decryptState, hnext]
  -- The key is expanded back in the odd rounds, before the even ones that expanded it.
  by_cases hodd : (round + 1) &&& 1 > 0
  · have heven : ¬ (round + 2) &&& 1 > 0 := by
      rw [and_one_pos_iff] at hodd ⊢
      omega
    simp only [if_pos hodd, if_neg heven, aesExpandDecKey_aesExpandEncKey]
    rw [hundo _ (if_pos hodd)]
  · have hlater : (round + 2) &&& 1 > 0 := by
      rw [and_one_pos_iff] at hodd ⊢
      omega
    simp only [if_neg hodd, if_pos hlater]
    rw [hundo _ (if_neg hodd)]

theorem decryptRounds_eq (count : Nat) :
    (List.range' 1 count).reverse.foldl decryptRound (decryptState key buf count) =
      decryptState key buf 0 := by
  induction count with
  | zero => rfl
  | succ count ih =>
      rw [List.range'_1_concat, List.reverse_append, List.reverse_singleton, List.singleton_append,
        List.foldl_cons, Nat.add_comm 1 count, decryptRound_eq]
      exact ih

/-! ## The prepared key -/

theorem roundKey_even (key : Key) (count : Nat) :
    roundKey key (2 * count) =
      (fun (k, rc) => aesExpandEncKey k rc : Key × Byte → Key × Byte)^[count] (key, 1) := by
  induction count with
  | zero => rfl
  | succ count ih =>
      have hodd : (2 * count + 1) &&& 1 > 0 := by
        rw [and_one_pos_iff]
        omega
      have heven : ¬ (2 * count + 1 + 1) &&& 1 > 0 := by
        rw [and_one_pos_iff]
        omega
      rw [Nat.mul_succ, roundKey, if_neg heven, roundKey, if_pos hodd, ih,
        Function.iterate_succ_apply']

/-- The round constants do not depend on the key. -/
theorem roundKey_constant (key : Key) (count : Nat) :
    (roundKey key (2 * count)).2 = rjXtime^[count] 1 := by
  induction count with
  | zero => rfl
  | succ count ih =>
      rw [roundKey_even] at ih ⊢
      rw [Function.iterate_succ_apply', Function.iterate_succ_apply', ← ih]
      rfl

/-- A context that was initialised with a key. -/
structure AesContext.Prepared (ctx : AesContext) (key : Key) : Prop where
  enckey : ctx.enckey = key
  deckey : ctx.deckey = (roundKey key 14).1

theorem tbxAes256Init_prepared (ctx : AesContext) (key : Key) :
    (tbxAes256Init ctx key).Prepared key where
  enckey := rfl
  deckey := by
    have hround : roundKey key 14 = _ := roundKey_even key 7
    rw [hround]
    unfold tbxAes256Init
    rfl

/-- The decryption of a block, on its own. -/
def decryptBlock (key : Key) (buf : Block) : Block :=
  (tbxAes256DecryptEcb (tbxAes256Init ⟨key, key, key⟩ key) buf).2

/-- Decryption depends on the prepared key and on nothing else in the context. -/
theorem tbxAes256DecryptEcb_eq (hprepared : ctx.Prepared key) :
    (tbxAes256DecryptEcb ctx buf).2 = decryptBlock key buf ∧
      (tbxAes256DecryptEcb ctx buf).1.Prepared key := by
  have hinit := tbxAes256Init_prepared ⟨key, key, key⟩ key
  rw [decryptBlock, tbxAes256DecryptEcb, tbxAes256DecryptEcb, aesAddRoundKeyCpy_eq,
    aesAddRoundKeyCpy_eq, hprepared.deckey, hinit.deckey]
  exact ⟨rfl, hprepared.enckey, rfl⟩

theorem decryptBlock_encryptBlock (key : Key) (buf : Block) :
    decryptBlock key (encryptBlock key buf) = buf := by
  have hinit := tbxAes256Init_prepared ⟨key, key, key⟩ key
  have hhalf : (roundKey key 14).1.low = roundHalf key 14 := rfl
  have hconstant : (0x80 : Byte) = (roundKey key 14).2 := by
    rw [roundKey_constant key 7]
    decide
  have hrounds := @decryptRounds_eq key buf 13
  have hstart : (⟨roundBlock key buf 13, (roundKey key 14).1, 0x80⟩ : CipherState) =
      decryptState key buf 13 := by
    rw [hconstant]
    rfl
  rw [decryptBlock, tbxAes256DecryptEcb, aesAddRoundKeyCpy_eq]
  simp only [hinit.deckey, hhalf, encryptBlock, aesAddRoundKey_aesAddRoundKey,
    aesShiftRowsInv_aesShiftRows, aesSubBytesInv_aesSubBytes, hstart, hrounds]
  exact aesAddRoundKey_aesAddRoundKey buf key.low

/-- There are finitely many blocks, so that encryption undoes decryption too. -/
theorem encryptBlock_decryptBlock (key : Key) (buf : Block) :
    encryptBlock key (decryptBlock key buf) = buf := by
  have hbyte : Finite Byte := Finite.of_injective BitVec.toFin fun _ _ => BitVec.toFin_inj.mp
  have hfinite : Finite Block := Finite.of_injective _ Buffer.get_injective
  have hleft : Function.LeftInverse (decryptBlock key) (encryptBlock key) :=
    decryptBlock_encryptBlock key
  exact hleft.rightInverse_of_surjective (Finite.surjective_of_injective hleft.injective) buf

/-! ## Buffers -/

section Buffers

variable {data other : Bytes} {offset index : Nat} {block : Block}

theorem Bytes.setBlock_of_mem {i : Fin 16} (hindex : index = offset + i) :
    data.setBlock offset block index = block.get i := by
  subst hindex
  have hinside : offset ≤ offset + i.val ∧ offset + i.val < offset + 16 := by omega
  rw [Bytes.setBlock, dif_pos hinside]
  congr 1
  rw [Fin.ext_iff]
  exact Nat.add_sub_cancel_left ..

theorem Bytes.setBlock_of_not_mem (hindex : ¬ (offset ≤ index ∧ index < offset + 16)) :
    data.setBlock offset block index = data index :=
  dif_neg hindex

theorem Bytes.get_block (i : Fin 16) : (data.block offset).get i = data (offset + i) := by
  simp [Bytes.block, Buffer.get]

theorem Bytes.block_setBlock : (data.setBlock offset block).block offset = block := by
  apply Buffer.get_injective
  funext i
  rw [Bytes.get_block]
  exact Bytes.setBlock_of_mem rfl

theorem Bytes.setBlock_setBlock {next : Block} :
    (data.setBlock offset block).setBlock offset next = data.setBlock offset next := by
  funext index
  by_cases hinside : offset ≤ index ∧ index < offset + 16
  · have hindex : index = offset + (⟨index - offset, by omega⟩ : Fin 16).val := by
      simp only
      omega
    rw [Bytes.setBlock_of_mem hindex, Bytes.setBlock_of_mem hindex]
  · rw [Bytes.setBlock_of_not_mem hinside, Bytes.setBlock_of_not_mem hinside,
      Bytes.setBlock_of_not_mem hinside]

theorem Bytes.setBlock_block : data.setBlock offset (data.block offset) = data := by
  funext index
  by_cases hinside : offset ≤ index ∧ index < offset + 16
  · have hindex : index = offset + (⟨index - offset, by omega⟩ : Fin 16).val := by
      simp only
      omega
    rw [Bytes.setBlock_of_mem hindex, Bytes.get_block, ← hindex]
  · exact Bytes.setBlock_of_not_mem hinside

/-- The body of the loop through the blocks, for a function of blocks. -/
def mapBlock (crypt : Block → Block) (data : Bytes) (idx : Nat) : Bytes :=
  data.setBlock (idx * tbxCryptoAesBlockSize) (crypt (data.block (idx * tbxCryptoAesBlockSize)))

/-- Every block of a buffer is worked on for itself. -/
theorem confined_mapBlock (crypt : Block → Block) (steps : List Nat) :
    Confined (fun data : Bytes => data) (fun index => index / tbxCryptoAesBlockSize)
      (mapBlock crypt) steps where
  frame := by
    intro idx _ data index hne
    apply Bytes.setBlock_of_not_mem
    rintro ⟨hle, hlt⟩
    apply hne
    simp only [tbxCryptoAesBlockSize] at hle hlt ⊢
    omega
  congr := by
    rintro idx _ data other hsame index rfl
    have hblock : data.block (index / tbxCryptoAesBlockSize * tbxCryptoAesBlockSize) =
        other.block (index / tbxCryptoAesBlockSize * tbxCryptoAesBlockSize) := by
      apply Buffer.get_injective
      funext i
      rw [Bytes.get_block, Bytes.get_block]
      apply hsame
      have hi := i.isLt
      simp only [tbxCryptoAesBlockSize]
      omega
    have hindex : index = index / tbxCryptoAesBlockSize * tbxCryptoAesBlockSize +
        (⟨index % 16, Nat.mod_lt _ (by decide)⟩ : Fin 16).val := by
      simp only [tbxCryptoAesBlockSize]
      omega
    rw [mapBlock, mapBlock, hblock, Bytes.setBlock_of_mem hindex, Bytes.setBlock_of_mem hindex]

/-- Work through a buffer with two functions of which the second undoes the
first. -/
theorem mapBlocks_inverse {crypt inverse : Block → Block}
    (hinverse : ∀ block, inverse (crypt block) = block) (count : Nat) :
    (List.range count).foldl (mapBlock inverse) ((List.range count).foldl (mapBlock crypt) data) =
      data := by
  apply (confined_mapBlock crypt (List.range count)).foldl_inverse
    (confined_mapBlock inverse (List.range count)) (fun _ _ heq => heq) List.nodup_range
    (List.Perm.refl _)
  intro idx _ data
  rw [mapBlock, mapBlock, Bytes.block_setBlock, hinverse, Bytes.setBlock_setBlock,
    Bytes.setBlock_block]

/-- The context makes no difference from block to block. -/
theorem cryptBlocks_eq {crypt : AesContext → Block → AesContext × Block} {blockwise : Block → Block}
    (hcrypt : ∀ ctx : AesContext, ctx.Prepared key → ∀ block,
      (crypt ctx block).2 = blockwise block ∧ (crypt ctx block).1.Prepared key)
    (hprepared : ctx.Prepared key) (len : Nat) :
    (cryptBlocks crypt ctx data len).2 =
      (List.range (len / tbxCryptoAesBlockSize)).foldl (mapBlock blockwise) data := by
  rw [cryptBlocks]
  generalize List.range (len / tbxCryptoAesBlockSize) = blocks
  induction blocks generalizing ctx data with
  | nil => rfl
  | cons idx rest ih =>
      obtain ⟨hblock, hafter⟩ := hcrypt ctx hprepared (data.block (idx * tbxCryptoAesBlockSize))
      rw [List.foldl_cons, List.foldl_cons, ih hafter, hblock]
      rfl

end Buffers

variable {len : Nat} {data : Bytes}

theorem cryptBuffer_eq {crypt : AesContext → Block → AesContext × Block} {blockwise : Block → Block}
    (hcrypt : ∀ ctx : AesContext, ctx.Prepared key → ∀ block,
      (crypt ctx block).2 = blockwise block ∧ (crypt ctx block).1.Prepared key)
    (hvalid : 0 < len ∧ len % tbxCryptoAesBlockSize = 0) :
    (cryptBuffer crypt ctx (some data) len (some key)).2 =
      some ((List.range (len / tbxCryptoAesBlockSize)).foldl (mapBlock blockwise) data) := by
  rw [← cryptBlocks_eq hcrypt (tbxAes256Init_prepared ctx key) len]
  simp only [cryptBuffer, if_pos hvalid]

theorem encryptEcb_crypts (ctx : AesContext) (hprepared : ctx.Prepared key) (block : Block) :
    (tbxAes256EncryptEcb ctx block).2 = encryptBlock key block ∧
      (tbxAes256EncryptEcb ctx block).1.Prepared key := by
  rw [tbxAes256EncryptEcb_eq, hprepared.enckey]
  exact ⟨rfl, rfl, hprepared.deckey⟩

/-- With the same key, and whatever the stack holds at the two calls, either
direction restores what the other one was given. -/
theorem crypto_round_trip (first second : AesContext) (data : Bytes) (len : Nat) (key : Key)
    (hlen : 0 < len) (hblocks : 16 ∣ len) :
    (tbxCryptoAes256Decrypt second (tbxCryptoAes256Encrypt first (some data) len (some key)).2 len
        (some key)).2 = some data ∧
      (tbxCryptoAes256Encrypt second (tbxCryptoAes256Decrypt first (some data) len (some key)).2 len
        (some key)).2 = some data := by
  have hvalid : 0 < len ∧ len % tbxCryptoAesBlockSize = 0 := ⟨hlen, Nat.mod_eq_zero_of_dvd hblocks⟩
  have hdecrypt : ∀ ctx : AesContext, ctx.Prepared key → ∀ block,
      (tbxAes256DecryptEcb ctx block).2 = decryptBlock key block ∧
        (tbxAes256DecryptEcb ctx block).1.Prepared key :=
    fun _ hprepared _ => tbxAes256DecryptEcb_eq hprepared
  unfold tbxCryptoAes256Decrypt tbxCryptoAes256Encrypt
  rw [cryptBuffer_eq encryptEcb_crypts hvalid, cryptBuffer_eq hdecrypt hvalid,
    cryptBuffer_eq hdecrypt hvalid, cryptBuffer_eq encryptEcb_crypts hvalid]
  constructor
  · rw [mapBlocks_inverse (decryptBlock_encryptBlock key)]
  · rw [mapBlocks_inverse (encryptBlock_decryptBlock key)]

/-- Two blocks, on a stack that holds the remains of another key. -/
theorem crypto_round_trip_two_blocks :
    (tbxCryptoAes256Decrypt ⟨.replicate 32 3, .replicate 32 2, .replicate 32 1⟩
        (tbxCryptoAes256Encrypt ⟨.replicate 32 0, .replicate 32 0, .replicate 32 0⟩
          (some fun index => BitVec.ofNat 8 index) 32 (some (.replicate 32 5))).2
        32 (some (.replicate 32 5))).2 = some fun index => BitVec.ofNat 8 index :=
  (crypto_round_trip ⟨.replicate 32 0, .replicate 32 0, .replicate 32 0⟩
    ⟨.replicate 32 3, .replicate 32 2, .replicate 32 1⟩ (fun index => BitVec.ofNat 8 index) 32
    (.replicate 32 5) (by decide) (by decide)).1

end MicroTbx
