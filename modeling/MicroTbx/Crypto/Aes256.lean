import Mathlib.Data.List.FinRange

/-! # The AES-256 functions

A function that works in place returns the new contents of its arrays. The
context of a computation lives on the stack of its caller, so that its first
contents are arbitrary.
-/

namespace MicroTbx

abbrev Byte := BitVec 8

/-- An array of bytes. -/
abbrev Buffer (size : Nat) := Vector Byte size

/-- `array[i]`. -/
def Buffer.get {size : Nat} (array : Buffer size) (i : Fin size) : Byte := array[i]

/-- `array[i] = value`. -/
def Buffer.write {size : Nat} (array : Buffer size) (i : Fin size) (value : Byte) : Buffer size :=
  array.set i value

/-- `array[i] ^= value`. -/
def Buffer.xorInto {size : Nat} (array : Buffer size) (i : Fin size) (value : Byte) :
    Buffer size :=
  array.write i (array.get i ^^^ value)

/-- The bytes behind a `buf` pointer. -/
abbrev Block := Buffer 16

abbrev Key := Buffer 32

/-- `tbx_aes256_context`. -/
structure AesContext where
  key : Key
  enckey : Key
  deckey : Key

/-! ## Bytes -/

/-- The table of `rj_sbox`. -/
def sboxTable : Array Byte := #[
  0x63, 0x7c, 0x77, 0x7b, 0xf2, 0x6b, 0x6f, 0xc5, 0x30, 0x01, 0x67, 0x2b,
  0xfe, 0xd7, 0xab, 0x76, 0xca, 0x82, 0xc9, 0x7d, 0xfa, 0x59, 0x47, 0xf0,
  0xad, 0xd4, 0xa2, 0xaf, 0x9c, 0xa4, 0x72, 0xc0, 0xb7, 0xfd, 0x93, 0x26,
  0x36, 0x3f, 0xf7, 0xcc, 0x34, 0xa5, 0xe5, 0xf1, 0x71, 0xd8, 0x31, 0x15,
  0x04, 0xc7, 0x23, 0xc3, 0x18, 0x96, 0x05, 0x9a, 0x07, 0x12, 0x80, 0xe2,
  0xeb, 0x27, 0xb2, 0x75, 0x09, 0x83, 0x2c, 0x1a, 0x1b, 0x6e, 0x5a, 0xa0,
  0x52, 0x3b, 0xd6, 0xb3, 0x29, 0xe3, 0x2f, 0x84, 0x53, 0xd1, 0x00, 0xed,
  0x20, 0xfc, 0xb1, 0x5b, 0x6a, 0xcb, 0xbe, 0x39, 0x4a, 0x4c, 0x58, 0xcf,
  0xd0, 0xef, 0xaa, 0xfb, 0x43, 0x4d, 0x33, 0x85, 0x45, 0xf9, 0x02, 0x7f,
  0x50, 0x3c, 0x9f, 0xa8, 0x51, 0xa3, 0x40, 0x8f, 0x92, 0x9d, 0x38, 0xf5,
  0xbc, 0xb6, 0xda, 0x21, 0x10, 0xff, 0xf3, 0xd2, 0xcd, 0x0c, 0x13, 0xec,
  0x5f, 0x97, 0x44, 0x17, 0xc4, 0xa7, 0x7e, 0x3d, 0x64, 0x5d, 0x19, 0x73,
  0x60, 0x81, 0x4f, 0xdc, 0x22, 0x2a, 0x90, 0x88, 0x46, 0xee, 0xb8, 0x14,
  0xde, 0x5e, 0x0b, 0xdb, 0xe0, 0x32, 0x3a, 0x0a, 0x49, 0x06, 0x24, 0x5c,
  0xc2, 0xd3, 0xac, 0x62, 0x91, 0x95, 0xe4, 0x79, 0xe7, 0xc8, 0x37, 0x6d,
  0x8d, 0xd5, 0x4e, 0xa9, 0x6c, 0x56, 0xf4, 0xea, 0x65, 0x7a, 0xae, 0x08,
  0xba, 0x78, 0x25, 0x2e, 0x1c, 0xa6, 0xb4, 0xc6, 0xe8, 0xdd, 0x74, 0x1f,
  0x4b, 0xbd, 0x8b, 0x8a, 0x70, 0x3e, 0xb5, 0x66, 0x48, 0x03, 0xf6, 0x0e,
  0x61, 0x35, 0x57, 0xb9, 0x86, 0xc1, 0x1d, 0x9e, 0xe1, 0xf8, 0x98, 0x11,
  0x69, 0xd9, 0x8e, 0x94, 0x9b, 0x1e, 0x87, 0xe9, 0xce, 0x55, 0x28, 0xdf,
  0x8c, 0xa1, 0x89, 0x0d, 0xbf, 0xe6, 0x42, 0x68, 0x41, 0x99, 0x2d, 0x0f,
  0xb0, 0x54, 0xbb, 0x16]

/-- The table of `rj_sbox_inv`. -/
def sboxInvTable : Array Byte := #[
  0x52, 0x09, 0x6a, 0xd5, 0x30, 0x36, 0xa5, 0x38, 0xbf, 0x40, 0xa3, 0x9e,
  0x81, 0xf3, 0xd7, 0xfb, 0x7c, 0xe3, 0x39, 0x82, 0x9b, 0x2f, 0xff, 0x87,
  0x34, 0x8e, 0x43, 0x44, 0xc4, 0xde, 0xe9, 0xcb, 0x54, 0x7b, 0x94, 0x32,
  0xa6, 0xc2, 0x23, 0x3d, 0xee, 0x4c, 0x95, 0x0b, 0x42, 0xfa, 0xc3, 0x4e,
  0x08, 0x2e, 0xa1, 0x66, 0x28, 0xd9, 0x24, 0xb2, 0x76, 0x5b, 0xa2, 0x49,
  0x6d, 0x8b, 0xd1, 0x25, 0x72, 0xf8, 0xf6, 0x64, 0x86, 0x68, 0x98, 0x16,
  0xd4, 0xa4, 0x5c, 0xcc, 0x5d, 0x65, 0xb6, 0x92, 0x6c, 0x70, 0x48, 0x50,
  0xfd, 0xed, 0xb9, 0xda, 0x5e, 0x15, 0x46, 0x57, 0xa7, 0x8d, 0x9d, 0x84,
  0x90, 0xd8, 0xab, 0x00, 0x8c, 0xbc, 0xd3, 0x0a, 0xf7, 0xe4, 0x58, 0x05,
  0xb8, 0xb3, 0x45, 0x06, 0xd0, 0x2c, 0x1e, 0x8f, 0xca, 0x3f, 0x0f, 0x02,
  0xc1, 0xaf, 0xbd, 0x03, 0x01, 0x13, 0x8a, 0x6b, 0x3a, 0x91, 0x11, 0x41,
  0x4f, 0x67, 0xdc, 0xea, 0x97, 0xf2, 0xcf, 0xce, 0xf0, 0xb4, 0xe6, 0x73,
  0x96, 0xac, 0x74, 0x22, 0xe7, 0xad, 0x35, 0x85, 0xe2, 0xf9, 0x37, 0xe8,
  0x1c, 0x75, 0xdf, 0x6e, 0x47, 0xf1, 0x1a, 0x71, 0x1d, 0x29, 0xc5, 0x89,
  0x6f, 0xb7, 0x62, 0x0e, 0xaa, 0x18, 0xbe, 0x1b, 0xfc, 0x56, 0x3e, 0x4b,
  0xc6, 0xd2, 0x79, 0x20, 0x9a, 0xdb, 0xc0, 0xfe, 0x78, 0xcd, 0x5a, 0xf4,
  0x1f, 0xdd, 0xa8, 0x33, 0x88, 0x07, 0xc7, 0x31, 0xb1, 0x12, 0x10, 0x59,
  0x27, 0x80, 0xec, 0x5f, 0x60, 0x51, 0x7f, 0xa9, 0x19, 0xb5, 0x4a, 0x0d,
  0x2d, 0xe5, 0x7a, 0x9f, 0x93, 0xc9, 0x9c, 0xef, 0xa0, 0xe0, 0x3b, 0x4d,
  0xae, 0x2a, 0xf5, 0xb0, 0xc8, 0xeb, 0xbb, 0x3c, 0x83, 0x53, 0x99, 0x61,
  0x17, 0x2b, 0x04, 0x7e, 0xba, 0x77, 0xd6, 0x26, 0xe1, 0x69, 0x14, 0x63,
  0x55, 0x21, 0x0c, 0x7d]

def rjSbox (x : Byte) : Byte := sboxTable.getD x.toNat 0

def rjSboxInv (x : Byte) : Byte := sboxInvTable.getD x.toNat 0

def rjXtime (x : Byte) : Byte :=
  let y := x <<< 1
  if x &&& 0x80 ≠ 0 then y ^^^ 0x1b else y

/-! ## Blocks -/

/-- The indices of `while (i-- > 0U)` from 16. -/
def countdown : List (Fin 16) := (List.finRange 16).reverse

def aesSubBytes (buf : Block) : Block :=
  countdown.foldl (fun buf i => buf.write i (rjSbox (buf.get i))) buf

def aesSubBytesInv (buf : Block) : Block :=
  countdown.foldl (fun buf i => buf.write i (rjSboxInv (buf.get i))) buf

def aesAddRoundKey (buf : Block) (key : Fin 16 → Byte) : Block :=
  countdown.foldl (fun buf i => buf.xorInto i (key i)) buf

/-- The first half of a key. -/
def Key.low (key : Key) (i : Fin 16) : Byte := key.get (Fin.castAdd 16 i)

/-- The bytes behind `&key[16U]`. -/
def Key.high (key : Key) (i : Fin 16) : Byte := key.get (Fin.natAdd 16 i)

/-- Returns `buf` and `cpk`. -/
def aesAddRoundKeyCpy (buf : Block) (key cpk : Key) : Block × Key :=
  countdown.foldl (fun (buf, cpk) i =>
    let cpk := cpk.write (Fin.castAdd 16 i) (key.get (Fin.castAdd 16 i))
    let buf := buf.xorInto i (cpk.get (Fin.castAdd 16 i))
    let cpk := cpk.write (Fin.natAdd 16 i) (key.get (Fin.natAdd 16 i))
    (buf, cpk)) (buf, cpk)

def aesShiftRows (buf : Block) : Block :=
  let i := buf.get 1
  let buf := buf.write 1 (buf.get 5)
  let buf := buf.write 5 (buf.get 9)
  let buf := buf.write 9 (buf.get 13)
  let buf := buf.write 13 i
  let i := buf.get 10
  let buf := buf.write 10 (buf.get 2)
  let buf := buf.write 2 i
  let j := buf.get 3
  let buf := buf.write 3 (buf.get 15)
  let buf := buf.write 15 (buf.get 11)
  let buf := buf.write 11 (buf.get 7)
  let buf := buf.write 7 j
  let j := buf.get 14
  let buf := buf.write 14 (buf.get 6)
  buf.write 6 j

def aesShiftRowsInv (buf : Block) : Block :=
  let i := buf.get 1
  let buf := buf.write 1 (buf.get 13)
  let buf := buf.write 13 (buf.get 9)
  let buf := buf.write 9 (buf.get 5)
  let buf := buf.write 5 i
  let i := buf.get 2
  let buf := buf.write 2 (buf.get 10)
  let buf := buf.write 10 i
  let j := buf.get 3
  let buf := buf.write 3 (buf.get 7)
  let buf := buf.write 7 (buf.get 11)
  let buf := buf.write 11 (buf.get 15)
  let buf := buf.write 15 j
  let j := buf.get 6
  let buf := buf.write 6 (buf.get 14)
  buf.write 14 j

/-- The values of `i` in `for (i = 0U; i < 16U; i += 4U)`. -/
def columns : List (Fin 16) := [0, 4, 8, 12]

/-- The body of the loop of `aes_mixColumns`. -/
def mixColumn (buf : Block) (i : Fin 16) : Block :=
  let a := buf.get i
  let b := buf.get (i + 1)
  let c := buf.get (i + 2)
  let d := buf.get (i + 3)
  let e := a ^^^ b ^^^ c ^^^ d
  let buf := buf.xorInto i (e ^^^ rjXtime (a ^^^ b))
  let buf := buf.xorInto (i + 1) (e ^^^ rjXtime (b ^^^ c))
  let buf := buf.xorInto (i + 2) (e ^^^ rjXtime (c ^^^ d))
  buf.xorInto (i + 3) (e ^^^ rjXtime (d ^^^ a))

def aesMixColumns (buf : Block) : Block := columns.foldl mixColumn buf

/-- The body of the loop of `aes_mixColumns_inv`. -/
def mixColumnInv (buf : Block) (i : Fin 16) : Block :=
  let a := buf.get i
  let b := buf.get (i + 1)
  let c := buf.get (i + 2)
  let d := buf.get (i + 3)
  let e := a ^^^ b ^^^ c ^^^ d
  let z := rjXtime e
  let x := e ^^^ rjXtime (rjXtime (z ^^^ a ^^^ c))
  let y := e ^^^ rjXtime (rjXtime (z ^^^ b ^^^ d))
  let buf := buf.xorInto i (x ^^^ rjXtime (a ^^^ b))
  let buf := buf.xorInto (i + 1) (y ^^^ rjXtime (b ^^^ c))
  let buf := buf.xorInto (i + 2) (x ^^^ rjXtime (c ^^^ d))
  buf.xorInto (i + 3) (y ^^^ rjXtime (d ^^^ a))

def aesMixColumnsInv (buf : Block) : Block := columns.foldl mixColumnInv buf

/-! ## Key expansion -/

/-- Four statements `k[i + n] ^= source n`. -/
def xorWord (i : Fin 32) (source : Fin 4 → Key → Byte) (k : Key) : Key :=
  let k := k.xorInto i (source 0 k)
  let k := k.xorInto (i + 1) (source 1 k)
  let k := k.xorInto (i + 2) (source 2 k)
  k.xorInto (i + 3) (source 3 k)

/-- The word of the key in front of index `i`. -/
def previousWord (i : Fin 32) (n : Fin 4) (k : Key) : Byte :=
  match n with
  | 0 => k.get (i - 4)
  | 1 => k.get (i - 3)
  | 2 => k.get (i - 2)
  | 3 => k.get (i - 1)

/-- The substituted word at index 12. -/
def middleWord (n : Fin 4) (k : Key) : Byte :=
  match n with
  | 0 => rjSbox (k.get 12)
  | 1 => rjSbox (k.get 13)
  | 2 => rjSbox (k.get 14)
  | 3 => rjSbox (k.get 15)

/-- The rotated and substituted last word, with the round constant. -/
def lastWord (rc : Byte) (n : Fin 4) (k : Key) : Byte :=
  match n with
  | 0 => rjSbox (k.get 29) ^^^ rc
  | 1 => rjSbox (k.get 30)
  | 2 => rjSbox (k.get 31)
  | 3 => rjSbox (k.get 28)

/-- Returns `k` and `rc`. -/
def aesExpandEncKey (k : Key) (rc : Byte) : Key × Byte :=
  let k := xorWord 0 (lastWord rc) k
  let rc := rjXtime rc
  let k := [4, 8, 12].foldl (fun k i => xorWord i (previousWord i) k) k
  let k := xorWord 16 middleWord k
  let k := [20, 24, 28].foldl (fun k i => xorWord i (previousWord i) k) k
  (k, rc)

/-- Returns `k` and `rc`. -/
def aesExpandDecKey (k : Key) (rc : Byte) : Key × Byte :=
  let mask : Byte := 0
  let k := [28, 24, 20].foldl (fun k i => xorWord i (previousWord i) k) k
  let k := xorWord 16 middleWord k
  let k := [12, 8, 4].foldl (fun k i => xorWord i (previousWord i) k) k
  let mask := if rc &&& 1 > 0 then 0x8d else mask
  let rc := rc >>> 1 ^^^ mask
  let k := xorWord 0 (lastWord rc) k
  (k, rc)

/-! ## Contexts -/

def tbxAes256Init (ctx : AesContext) (k : Key) : AesContext :=
  let rcon : Byte := 1
  let ctx := { ctx with deckey := k, enckey := k }
  let (deckey, _) := (fun (k, rc) => aesExpandEncKey k rc)^[7] (ctx.deckey, rcon)
  { ctx with deckey := deckey }

def tbxAes256Done (ctx : AesContext) : AesContext :=
  { ctx with key := .replicate 32 0, enckey := .replicate 32 0, deckey := .replicate 32 0 }

/-- What the loops of encryption and decryption change. -/
structure CipherState where
  buf : Block
  key : Key
  rcon : Byte

/-- The body of the loop of `tbx_aes256_encrypt_ecb`. -/
def encryptRound (state : CipherState) (i : Nat) : CipherState :=
  let buf := aesSubBytes state.buf
  let buf := aesShiftRows buf
  let buf := aesMixColumns buf
  if i &&& 1 > 0 then { state with buf := aesAddRoundKey buf state.key.high }
  else
    let (key, rcon) := aesExpandEncKey state.key state.rcon
    { buf := aesAddRoundKey buf key.low, key, rcon }

/-- Returns the context and `buf`. -/
def tbxAes256EncryptEcb (ctx : AesContext) (buf : Block) : AesContext × Block :=
  let (buf, key) := aesAddRoundKeyCpy buf ctx.enckey ctx.key
  let state := (List.range' 1 13).foldl encryptRound { buf, key, rcon := 1 }
  let buf := aesSubBytes state.buf
  let buf := aesShiftRows buf
  let (key, _) := aesExpandEncKey state.key state.rcon
  let buf := aesAddRoundKey buf key.low
  ({ ctx with key := key }, buf)

/-- The body of the loop of `tbx_aes256_decrypt_ecb`. -/
def decryptRound (state : CipherState) (i : Nat) : CipherState :=
  let state :=
    if i &&& 1 > 0 then
      let (key, rcon) := aesExpandDecKey state.key state.rcon
      { buf := aesAddRoundKey state.buf key.high, key, rcon : CipherState }
    else { state with buf := aesAddRoundKey state.buf state.key.low }
  let buf := aesMixColumnsInv state.buf
  let buf := aesShiftRowsInv buf
  let buf := aesSubBytesInv buf
  { state with buf := buf }

/-- Returns the context and `buf`. -/
def tbxAes256DecryptEcb (ctx : AesContext) (buf : Block) : AesContext × Block :=
  let (buf, key) := aesAddRoundKeyCpy buf ctx.deckey ctx.key
  let buf := aesShiftRowsInv buf
  let buf := aesSubBytesInv buf
  let state := (List.range' 1 13).reverse.foldl decryptRound { buf, key, rcon := 0x80 }
  let buf := aesAddRoundKey state.buf state.key.low
  ({ ctx with key := state.key }, buf)

/-! ## Buffers -/

/-- The bytes behind a `data` pointer. -/
abbrev Bytes := Nat → Byte

/-- The block at `&data[offset]`. -/
def Bytes.block (data : Bytes) (offset : Nat) : Block := .ofFn fun i => data (offset + i)

/-- Change the block at `&data[offset]`. -/
def Bytes.setBlock (data : Bytes) (offset : Nat) (block : Block) : Bytes := fun index =>
  if hinside : offset ≤ index ∧ index < offset + 16 then block.get ⟨index - offset, by omega⟩
  else data index

/-- `TBX_CRYPTO_AES_BLOCK_SIZE`. -/
def tbxCryptoAesBlockSize : Nat := 16

/-- The loop through the blocks of a buffer. Returns the context and `data`. -/
def cryptBlocks (crypt : AesContext → Block → AesContext × Block) (ctx : AesContext) (data : Bytes)
    (len : Nat) : AesContext × Bytes :=
  (List.range (len / tbxCryptoAesBlockSize)).foldl (fun (ctx, data) idx =>
    let (ctx, block) := crypt ctx (data.block (idx * tbxCryptoAesBlockSize))
    (ctx, data.setBlock (idx * tbxCryptoAesBlockSize) block)) (ctx, data)

/-- Both directions: initialise, work through the blocks and clean up. `none`
stands for `NULL`, and `ctx` for what the stack holds. Returns the context and
`data`; assertions report invalid parameters and change neither. -/
def cryptBuffer (crypt : AesContext → Block → AesContext × Block) (ctx : AesContext)
    (data : Option Bytes) (len : Nat) (key : Option Key) : AesContext × Option Bytes :=
  match data, key with
  | some data, some key =>
      if 0 < len ∧ len % tbxCryptoAesBlockSize = 0 then
        let ctx := tbxAes256Init ctx key
        let (ctx, data) := cryptBlocks crypt ctx data len
        (tbxAes256Done ctx, some data)
      else (ctx, some data)
  | data, _ => (ctx, data)

def tbxCryptoAes256Encrypt (ctx : AesContext) (data : Option Bytes) (len : Nat)
    (key : Option Key) : AesContext × Option Bytes :=
  cryptBuffer tbxAes256EncryptEcb ctx data len key

def tbxCryptoAes256Decrypt (ctx : AesContext) (data : Option Bytes) (len : Nat)
    (key : Option Key) : AesContext × Option Bytes :=
  cryptBuffer tbxAes256DecryptEcb ctx data len key

end MicroTbx
