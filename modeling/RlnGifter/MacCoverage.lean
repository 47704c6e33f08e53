/-
What the MAC of the secure channel covers.  Data of whole blocks is padded by one more,
and the block that is taken is the last before it: the end of the chain over the header
and all of the data.
-/
import RlnGifter.SecureChannel

namespace RlnGifter

namespace Keycard

open Apdu

/-- The padding of whole blocks: a block of its own. -/
def padBlock : Bytes 16 := ⟨0x80 :: List.replicate 15 0, rfl⟩

theorem appendPadding_blocks (blocks : List (Bytes 16)) :
    appendPadding (joinBlocks blocks) = joinBlocks (blocks ++ [padBlock]) := by
  have haligned : (joinBlocks blocks).length % 16 = 0 := by
    rw [length_joinBlocks, Nat.mul_mod_right]
  rw [appendPadding, haligned, joinBlocks, joinBlocks, List.flatMap_append]
  rfl

theorem mixBlocks_comm (a b : Bytes 16) : mixBlocks a b = mixBlocks b a := by
  apply List.Vector.ext
  intro i
  rw [mixBlocks, mixBlocks, List.Vector.zipWith_get, List.Vector.zipWith_get, UInt8.xor_comm]

theorem mixBlocks_injective_left (c : Bytes 16) : Function.Injective fun b => mixBlocks b c := by
  have hinvolutive : Function.Involutive fun b => mixBlocks b c := fun b => mixBlocks_mixBlocks b c
  exact hinvolutive.injective

theorem mixBlocks_injective (b : Bytes 16) : Function.Injective (mixBlocks b) := by
  intro c c' h
  rw [mixBlocks_comm b c, mixBlocks_comm b c'] at h
  exact mixBlocks_injective_left b h

section Coverage

variable [KeycardCrypto] {macKey : Bytes 32} {header header' : Bytes 16} {data data' : List UInt8}

/-- The MAC of whole blocks is the end of the chain over the header and all of them. -/
theorem calculateMac_blocks (macKey : Bytes 32) (header : Bytes 16) (blocks : List (Bytes 16)) :
    calculateMac header (joinBlocks blocks) macKey = .returns
      (Cbc.last mixBlocks (KeycardCrypto.encryptBlock macKey) zeroBlock (header :: blocks)) :=
  calculateMac_padded (appendPadding_blocks blocks)

/-- Where the bytes are those of blocks, they are the MAC's own. -/
theorem calculateMac_of_joinBlocks {blocks : List (Bytes 16)}
    (h : header.toList ++ data = joinBlocks blocks) :
    calculateMac header data macKey = .returns
      (Cbc.last mixBlocks (KeycardCrypto.encryptBlock macKey) zeroBlock blocks) := by
  cases blocks with
  | nil =>
      have hlen := header.toList_length
      rw [(List.append_eq_nil_iff.mp h).1] at hlen
      cases hlen
  | cons b blocks =>
      rw [joinBlocks_cons] at h
      have hlen : header.toList.length = b.toList.length := by
        rw [header.toList_length, b.toList_length]
      obtain ⟨hhead, rfl⟩ := List.append_inj h hlen
      rw [List.Vector.toList_injective hhead]
      exact calculateMac_blocks macKey b blocks

/-- Under a cipher that tells blocks apart, messages one block apart have two MACs. -/
theorem calculateMac_ne (haes : Function.Injective (KeycardCrypto.encryptBlock macKey))
    {mac : Bytes 16}
    (hapart : OneBlockApart 16 (header.toList ++ data) (header'.toList ++ data'))
    (hmac : calculateMac header data macKey = .returns mac) :
    calculateMac header' data' macKey ≠ .returns mac := by
  obtain ⟨front, back, b, b', hne, hblocks, hblocks'⟩ := hapart
  rw [calculateMac_of_joinBlocks hblocks, Ending.returns.injEq] at hmac
  rw [calculateMac_of_joinBlocks hblocks', ← hmac]
  intro hsame
  exact Cbc.last_ne_of_block haes mixBlocks_injective mixBlocks_injective_left zeroBlock front
    back hne (Ending.returns.inj hsame).symm

/-- The MAC of data of whole blocks, as all encrypted data is, is the last block of the
ciphertext of the header and the data, and no single block of either can be changed
under it. -/
theorem calculateMac_covers (header : Bytes 16) (macKey : Bytes 32) (data : List UInt8)
    (hdata : 16 ∣ data.length) :
    (∃ (blocks front : List (Bytes 16)) (mac : Bytes 16),
      header.toList ++ data = joinBlocks blocks ∧
      Cbc.encrypt mixBlocks (KeycardCrypto.encryptBlock macKey) zeroBlock blocks =
        front ++ [mac] ∧
      cbcEncryptRaw macKey zeroBlock (header.toList ++ data) =
        .returns (joinBlocks (front ++ [mac])) ∧
      calculateMac header data macKey = .returns mac ∧
      (Function.Bijective (KeycardCrypto.encryptBlock macKey) →
        ∀ (header' : Bytes 16) (data' : List UInt8),
          OneBlockApart 16 (header.toList ++ data) (header'.toList ++ data') →
          calculateMac header' data' macKey ≠ .returns mac)) ∧
    ∀ plain encKey iv enc, encryptData plain encKey iv = .returns enc → 16 ∣ enc.length := by
  constructor
  · obtain ⟨blocks, rfl⟩ := exists_joinBlocks hdata
    obtain ⟨front, hfront⟩ := @Cbc.encrypt_cons_ends _ mixBlocks
      (KeycardCrypto.encryptBlock macKey) zeroBlock header blocks
    have hall : header.toList ++ joinBlocks blocks = joinBlocks (header :: blocks) := rfl
    have hmac := calculateMac_blocks macKey header blocks
    refine ⟨header :: blocks, front, _, hall, hfront, ?_, hmac, ?_⟩
    · rw [hall, cbcEncryptRaw_blocks, hfront]
    · intro haes header' data' hapart
      exact calculateMac_ne haes.injective hapart hmac
  · intro plain encKey iv enc henc
    obtain ⟨enc', henc', hlen⟩ := encryptData_eq encKey iv plain
    rw [henc, Ending.returns.injEq] at henc'
    rw [henc', hlen]
    exact Nat.dvd_mul_right 16 _

end Coverage

/-- The PIN's command with another ciphertext has another MAC, with the blocks of
AES-256. -/
theorem calculateMac_covers_pin : letI := sampleCrypto
    calculateMac (commandMeta (Command.new claGp insVerifyPin 0 0 []) 32)
        (block 0x0ebc2320bb0031f46220cd6231a20f88).toList sampleClient.sc.macKey =
      .returns (block 0xf1a1d04f3d8f1ba247fb84d8c6b42889) ∧
    calculateMac (commandMeta (Command.new claGp insVerifyPin 0 0 []) 32)
        (block 0x50c884a53cdc6522a4398f24cdb0087f).toList sampleClient.sc.macKey ≠
      .returns (block 0xf1a1d04f3d8f1ba247fb84d8c6b42889) := by
  let _ := sampleCrypto
  have hmac : calculateMac (commandMeta (Command.new claGp insVerifyPin 0 0 []) 32)
      (block 0x0ebc2320bb0031f46220cd6231a20f88).toList sampleClient.sc.macKey =
        .returns (block 0xf1a1d04f3d8f1ba247fb84d8c6b42889) := by
    decide +kernel
  refine ⟨hmac, ?_⟩
  obtain ⟨⟨blocks, front, mac, -, -, -, hmac', hcovers⟩, -⟩ :=
    calculateMac_covers (commandMeta (Command.new claGp insVerifyPin 0 0 []) 32)
      sampleClient.sc.macKey (block 0x0ebc2320bb0031f46220cd6231a20f88).toList (by decide)
  rw [hmac, Ending.returns.injEq] at hmac'
  rw [hmac']
  have hapart : OneBlockApart 16
      ((commandMeta (Command.new claGp insVerifyPin 0 0 []) 32).toList ++
        (block 0x0ebc2320bb0031f46220cd6231a20f88).toList)
      ((commandMeta (Command.new claGp insVerifyPin 0 0 []) 32).toList ++
        (block 0x50c884a53cdc6522a4398f24cdb0087f).toList) :=
    ⟨[commandMeta (Command.new claGp insVerifyPin 0 0 []) 32], [],
      block 0x0ebc2320bb0031f46220cd6231a20f88, block 0x50c884a53cdc6522a4398f24cdb0087f, by decide,
      by simp [joinBlocks], by simp [joinBlocks]⟩
  exact hcovers (sampleAes sampleClient.sc.macKey).bijective _ _ hapart

end Keycard

end RlnGifter
