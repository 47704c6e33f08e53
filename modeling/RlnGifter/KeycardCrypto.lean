/-
The cryptography of the secure channel with a card: padding, AES in CBC mode, the MAC of
a message and the keys of a session.  Reading bytes out of range stops the program.
-/
import Mathlib.Data.Vector.Zip
import RlnGifter.Apdu
import RlnGifter.Chaining

namespace RlnGifter

/-- The ciphers, hashes and curve operations of the crates that the client of a card
uses.  Nothing is assumed of them. -/
class KeycardCrypto where
  SecretKey : Type
  PublicKey : Type
  sha256 : List UInt8 → Bytes 32
  sha512 : List UInt8 → Bytes 64
  pbkdf2HmacSha256 : List UInt8 → List UInt8 → Nat → Bytes 32
  nfkd : String → String
  encryptBlock : Bytes 32 → Bytes 16 → Bytes 16
  decryptBlock : Bytes 32 → Bytes 16 → Bytes 16
  fromSec1Bytes : List UInt8 → Except String PublicKey
  diffieHellman : SecretKey → PublicKey → Bytes 32
  ephemeralPublic : SecretKey → Bytes 65

namespace Keycard

open Apdu

/-- `PAIRING_TOKEN_SALT`. -/
def pairingTokenSalt : String := "Keycard Pairing Password Salt"

theorem length_zipWith_xor {a b : List UInt8} (h : 16 ≤ a.length ∧ 16 ≤ b.length) :
    ((List.zipWith (· ^^^ ·) a b).take 16).length = 16 := by
  rw [List.length_take, List.length_zipWith]
  omega

/-- Sixteen bytes of each, wherever they come from. -/
def xor16 (a b : List UInt8) : Ending (Bytes 16) :=
  if h : 16 ≤ a.length ∧ 16 ≤ b.length then
    .returns ⟨(List.zipWith (· ^^^ ·) a b).take 16, length_zipWith_xor h⟩
  else .panics

/-- Pad with a mark and zeros to the end of a block: a whole one if the last is full. -/
def appendPadding (data : List UInt8) : List UInt8 :=
  let pad := 16 - data.length % 16
  data ++ 0x80 :: List.replicate (pad - 1) 0

/-- The index of the last mark before `i`, or zero. -/
def lastMark (data : List UInt8) : Nat → Nat
  | 0 => 0
  | i + 1 => if data[i]? = some 0x80 then i else lastMark data i

def removePadding (data : List UInt8) : List UInt8 :=
  data.take (lastMark data data.length)

theorem length_card_iv {cardData : List UInt8} (h : 48 ≤ cardData.length) :
    ((cardData.drop 32).take 16).length = 16 := by
  rw [List.length_take, List.length_drop]
  omega

theorem length_enc_key (data : Bytes 64) : (data.toList.take 32).length = 32 := by
  rw [List.length_take, data.toList_length]
  rfl

theorem length_mac_key (data : Bytes 64) : (data.toList.drop 32).length = 32 := by
  rw [List.length_drop, data.toList_length]

theorem length_mac {ct : List UInt8} (h : 32 ≤ ct.length) :
    (KeycardAttest.slice ct (ct.length - 32) (ct.length - 16)).length = 16 := by
  rw [KeycardAttest.slice, List.length_take, List.length_drop]
  omega

section Crypto

variable [KeycardCrypto]

/-- `ecdh_generate`, with the key it draws. -/
def ecdhGenerate (eph : KeycardCrypto.SecretKey) (cardPubBytes : List UInt8) :
    Except String (Bytes 32 × List UInt8) := do
  let cardPub ← (KeycardCrypto.fromSec1Bytes cardPubBytes).mapError ("card pubkey: " ++ ·)
  return (KeycardCrypto.diffieHellman eph cardPub, (KeycardCrypto.ephemeralPublic eph).toList)

def pairingSecretHash (pairingPass : String) : Bytes 32 :=
  KeycardCrypto.pbkdf2HmacSha256 (utf8 (KeycardCrypto.nfkd pairingPass))
    (utf8 (KeycardCrypto.nfkd pairingTokenSalt)) 50000

/-- The keys of a session and its first iv; the card sent 32 bytes of salt and the iv. -/
def deriveSessionKeys (secret : Bytes 32) (pairingKey cardData : List UInt8) :
    Ending (Bytes 32 × Bytes 32 × Bytes 16) :=
  if h : 48 ≤ cardData.length then
    let salt := cardData.take 32
    let data := KeycardCrypto.sha512 (secret.toList ++ pairingKey ++ salt)
    .returns (⟨data.toList.take 32, length_enc_key data⟩,
      ⟨data.toList.drop 32, length_mac_key data⟩,
      ⟨(cardData.drop 32).take 16, length_card_iv h⟩)
  else .panics

/-- The loop of `cbc_encrypt_raw`, with the ciphertext block before the chunks. -/
def encryptChunks (key : Bytes 32) : Bytes 16 → List (List UInt8) → Ending (List UInt8)
  | _, [] => .returns []
  | prev, chunk :: rest => do
      let b ← xor16 chunk prev.toList
      let b := KeycardCrypto.encryptBlock key b
      let out ← encryptChunks key b rest
      return b.toList ++ out

def cbcEncryptRaw (key : Bytes 32) (iv : Bytes 16) (data : List UInt8) :
    Ending (List UInt8) :=
  encryptChunks key iv (chunks 16 data)

/-- The loop of `cbc_decrypt_raw`.  A block is cloned from its chunk, which stops the
program unless the chunk is as long. -/
def decryptChunks (key : Bytes 32) : Bytes 16 → List (List UInt8) → Ending (List UInt8)
  | _, [] => .returns []
  | prev, chunk :: rest =>
      if h : chunk.length = 16 then do
        let p ← xor16 (KeycardCrypto.decryptBlock key ⟨chunk, h⟩).toList prev.toList
        let out ← decryptChunks key ⟨chunk, h⟩ rest
        return p.toList ++ out
      else .panics

def cbcDecryptRaw (key : Bytes 32) (iv : Bytes 16) (data : List UInt8) :
    Ending (List UInt8) :=
  decryptChunks key iv (chunks 16 data)

def encryptData (data : List UInt8) (encKey : Bytes 32) (iv : Bytes 16) :
    Ending (List UInt8) :=
  cbcEncryptRaw encKey iv (appendPadding data)

def decryptData (data : List UInt8) (encKey : Bytes 32) (iv : Bytes 16) :
    Ending (List UInt8) := do
  let plain ← cbcDecryptRaw encKey iv data
  return removePadding plain

/-- `[0u8; 16]`. -/
def zeroBlock : Bytes 16 := List.Vector.replicate 16 0

/-- The block before the last of the ciphertext: the last is the padding's. -/
def calculateMac (header : Bytes 16) (data : List UInt8) (macKey : Bytes 32) :
    Ending (Bytes 16) := do
  let ct ← cbcEncryptRaw macKey zeroBlock (header.toList ++ appendPadding data)
  if h : 32 ≤ ct.length then
    return ⟨KeycardAttest.slice ct (ct.length - 32) (ct.length - 16), length_mac h⟩
  else .panics

end Crypto

section Padding

theorem length_appendPadding (data : List UInt8) :
    (appendPadding data).length = 16 * (data.length / 16 + 1) := by
  have hmod := Nat.mod_lt data.length (show 0 < 16 by decide)
  have hsplit := Nat.div_add_mod data.length 16
  rw [appendPadding, List.length_append, List.length_cons, List.length_replicate]
  omega

end Padding

section Blocks

/-- The bytes of two blocks xored. -/
def mixBlocks (a b : Bytes 16) : Bytes 16 := List.Vector.zipWith (· ^^^ ·) a b

theorem mixBlocks_mixBlocks (a b : Bytes 16) : mixBlocks (mixBlocks a b) b = a := by
  apply List.Vector.ext
  intro i
  rw [mixBlocks, mixBlocks, List.Vector.zipWith_get, List.Vector.zipWith_get,
    UInt8.xor_assoc, UInt8.xor_self, UInt8.xor_zero]

theorem xor16_blocks (a b : Bytes 16) : xor16 a.toList b.toList = .returns (mixBlocks a b) := by
  have ha := a.toList_length
  have hb := b.toList_length
  rw [xor16, dif_pos ⟨ha.ge, hb.ge⟩]
  congr 1
  apply List.Vector.toList_injective
  rw [mixBlocks, List.Vector.zipWith_toList]
  change (List.zipWith (· ^^^ ·) a.toList b.toList).take 16 = _
  rw [List.take_of_length_le]
  rw [List.length_zipWith, ha, hb, Nat.min_self]

variable [KeycardCrypto] {key : Bytes 32} {iv : Bytes 16}

theorem encryptChunks_blocks (blocks : List (Bytes 16)) :
    encryptChunks key iv (blocks.map List.Vector.toList) =
      .returns (joinBlocks
        (Cbc.encrypt mixBlocks (KeycardCrypto.encryptBlock key) iv blocks)) := by
  induction blocks generalizing iv with
  | nil => rfl
  | cons b blocks ih =>
      rw [List.map_cons, encryptChunks, xor16_blocks, Ending.returns_bind]
      simp only [ih, Ending.returns_bind, Ending.pure_eq_returns, Cbc.encrypt,
        joinBlocks_cons]

/-- Decryption stops the program unless every chunk is a block. -/
theorem decryptChunks_returns {cs : List (List UInt8)} :
    (decryptChunks key iv cs).Returns ↔ ∀ chunk ∈ cs, chunk.length = 16 := by
  induction cs generalizing iv with
  | nil => simp [decryptChunks]
  | cons chunk cs ih =>
      rw [decryptChunks, List.forall_mem_cons]
      by_cases hlen : chunk.length = 16
      · rw [dif_pos hlen, xor16_blocks, Ending.returns_bind, Ending.returns_bind_iff]
        constructor
        · rintro ⟨out, hout, -⟩
          exact ⟨hlen, ih.mp ⟨out, hout⟩⟩
        · rintro ⟨-, hrest⟩
          obtain ⟨out, hout⟩ := ih.mpr hrest
          exact ⟨out, hout, Ending.returns_returns _⟩
      · rw [dif_neg hlen]
        exact iff_of_false Ending.not_returns_panics fun h => hlen h.1

theorem cbcEncryptRaw_blocks (blocks : List (Bytes 16)) :
    cbcEncryptRaw key iv (joinBlocks blocks) =
      .returns (joinBlocks
        (Cbc.encrypt mixBlocks (KeycardCrypto.encryptBlock key) iv blocks)) := by
  rw [cbcEncryptRaw, chunks_joinBlocks (by decide), encryptChunks_blocks]

theorem cbcDecryptRaw_returns (key : Bytes 32) (iv : Bytes 16) {data : List UInt8} :
    (cbcDecryptRaw key iv data).Returns ↔ 16 ∣ data.length := by
  rw [cbcDecryptRaw, decryptChunks_returns, forall_chunks_length (by decide)]

theorem decryptData_returns {data : List UInt8} :
    (decryptData data key iv).Returns ↔ 16 ∣ data.length := by
  rw [decryptData, Ending.returns_bind_iff, ← cbcDecryptRaw_returns key iv]
  exact ⟨fun ⟨plain, hplain, _⟩ => ⟨plain, hplain⟩,
    fun ⟨plain, hplain⟩ => ⟨plain, hplain, Ending.returns_returns _⟩⟩

/-- What is encrypted is as long as the padded data. -/
theorem encryptData_eq (key : Bytes 32) (iv : Bytes 16) (data : List UInt8) :
    ∃ enc, encryptData data key iv = .returns enc ∧
      enc.length = 16 * (data.length / 16 + 1) := by
  obtain ⟨blocks, hblocks⟩ := exists_joinBlocks (Dvd.intro _ (length_appendPadding data).symm)
  refine ⟨_, by rw [encryptData, hblocks, cbcEncryptRaw_blocks], ?_⟩
  rw [length_joinBlocks, Cbc.length_encrypt, ← length_joinBlocks, ← hblocks,
    length_appendPadding]

/-- The MAC is the last block of the ciphertext without the block of the padding. -/
theorem calculateMac_padded {header pad : Bytes 16} {data : List UInt8} {blocks : List (Bytes 16)}
    (hpadded : appendPadding data = joinBlocks (blocks ++ [pad])) :
    calculateMac header data key = .returns
      (Cbc.last mixBlocks (KeycardCrypto.encryptBlock key) zeroBlock (header :: blocks)) := by
  have hall : header.toList ++ appendPadding data = joinBlocks (header :: blocks ++ [pad]) := by
    rw [List.cons_append, joinBlocks_cons, hpadded]
  obtain ⟨front, hfront⟩ :=
    @Cbc.encrypt_cons_ends _ mixBlocks (KeycardCrypto.encryptBlock key) zeroBlock header blocks
  rw [calculateMac, hall, cbcEncryptRaw_blocks, Cbc.encrypt_append, hfront, Ending.returns_bind]
  generalize Cbc.last mixBlocks (KeycardCrypto.encryptBlock key) zeroBlock (header :: blocks) =
    mac
  have hct : joinBlocks (front ++ [mac] ++
      Cbc.encrypt mixBlocks (KeycardCrypto.encryptBlock key) mac [pad]) =
        joinBlocks front ++
          (mac.toList ++ (KeycardCrypto.encryptBlock key (mixBlocks pad mac)).toList) := by
    simp [Cbc.encrypt, joinBlocks]
  have hlen := mac.toList_length
  have hpad := (KeycardCrypto.encryptBlock key (mixBlocks pad mac)).toList_length
  have hlong : 32 ≤ (joinBlocks front ++
      (mac.toList ++ (KeycardCrypto.encryptBlock key (mixBlocks pad mac)).toList)).length := by
    simp only [List.length_append, hlen, hpad]
    omega
  rw [hct]
  refine (dif_pos hlong).trans (congrArg Ending.returns ?_)
  apply List.Vector.toList_injective
  change KeycardAttest.slice _ _ _ = mac.toList
  simp only [List.length_append, hlen, hpad]
  rw [KeycardAttest.slice, List.drop_left' (by omega), List.take_left' (by omega)]

/-- The MAC of any data is within its ciphertext. -/
theorem calculateMac_eq (key : Bytes 32) (header : Bytes 16) (data : List UInt8) :
    ∃ mac, calculateMac header data key = .returns mac := by
  obtain ⟨blocks, hblocks⟩ := exists_joinBlocks (Dvd.intro _ (length_appendPadding data).symm)
  rcases List.eq_nil_or_concat' blocks with rfl | ⟨front, pad, rfl⟩
  · have hlen := length_appendPadding data
    rw [hblocks] at hlen
    cases hlen
  · exact ⟨_, calculateMac_padded hblocks⟩

end Blocks

end Keycard

end RlnGifter
