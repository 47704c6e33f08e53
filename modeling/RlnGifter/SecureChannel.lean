/-
The two ends of an open secure channel.  A card that holds the same keys and iv reads
every command as it was meant and is read in turn, and both ends go on from the same iv.
-/
import RlnGifter.KeycardClient

namespace RlnGifter

namespace Keycard

open Apdu

section Channel

variable [KeycardCrypto]

/-- The card's end of a channel, and the commands that have arrived. -/
structure Card where
  encKey : Bytes 32
  macKey : Bytes 32
  iv : Bytes 16
  received : List Command

/-- What a card makes of a command whose MAC is right: it takes up the plain data and
replies with `p` under the status `9000`. -/
def Card.reply (p : List UInt8) (card : Card) (mac : Bytes 16) (cmd : Command) :
    Ending (List UInt8 × Card) := do
  let enc ← encryptData p card.encKey mac
  let iv ← calculateMac (replyMeta (enc.length + 16)) enc card.macKey
  return (iv.toList ++ enc ++ [0x90, 0x00],
    { card with iv, received := card.received ++ [cmd] })

/-- A card checks the MAC of a command and decrypts its data. -/
def Card.accept (p : List UInt8) (card : Card) (cmd : Command) :
    Ending (Option (List UInt8 × Card)) := do
  let enc := cmd.data.drop 16
  let mac ← calculateMac (commandMeta cmd cmd.data.length) enc card.macKey
  let data ← decryptData enc card.encKey card.iv
  if cmd.data.take 16 = mac.toList then
    let (raw, card') ← card.reply p mac { cmd with data }
    return some (raw, card')
  else return none

/-- The card's answer to a command, with the plain data it has to say.  A command it
does not accept gets a status of its own and changes nothing. -/
def Card.answer (p : List UInt8) (card : Card) (sent : Sent) :
    Except String (List UInt8) × Card :=
  match card.accept p sent.cmd with
  | .returns (some (raw, card')) => (.ok raw, card')
  | _ => (.ok [0x69, 0x82], card)

variable {client : Keycard} {cmd : Command} {enc plain : List UInt8} {mac lead : Bytes 16}

theorem sealCommand_run (henc : encryptData cmd.data client.sc.encKey client.sc.iv =
      .returns enc)
    (hmac : calculateMac (commandMeta cmd (enc.length + 16)) enc client.sc.macKey =
      .returns mac) :
    (sealCommand cmd).run client =
      .ret (.returns (.ok { cmd with data := mac.toList ++ enc }, setIv mac client)) := by
  rw [sealCommand, Method.run_get_bind, henc, Method.run_lift_bind, hmac,
    Method.run_lift_bind, Method.run_modify_bind]
  rfl

/-- Over an open channel a command is sealed and sent, and its reply is opened. -/
theorem sendSc_run (hopen : client.sc.isOpen = true)
    (henc : encryptData cmd.data client.sc.encKey client.sc.iv = .returns enc)
    (hmac : calculateMac (commandMeta cmd (enc.length + 16)) enc client.sc.macKey =
      .returns mac) :
    ∃ next, (sendSc cmd).run client = .op (sending { cmd with data := mac.toList ++ enc }) next ∧
      (∀ raw, next (.ok raw) = (openReply (parseResponse raw)).run (setIv mac client)) ∧
      ∀ e, next (.error e) = .ret (.returns (.error ("transmit: " ++ e), setIv mac client)) := by
  have hrun : (sendSc cmd).run client =
      (transmit { cmd with data := mac.toList ++ enc } >>= openReply).run
        (setIv mac client) := by
    rw [sendSc, Method.run_get_bind, if_pos hopen,
      Method.run_bind_of_ok (sealCommand_run henc hmac)]
  exact ⟨_, hrun.trans (run_transmit_bind _ _ _), fun _ => rfl, fun _ => rfl⟩

/-- A reply is opened just when it starts with the MAC of what follows. -/
theorem openReply_run (hplain : decryptData enc client.sc.encKey client.sc.iv = .returns plain)
    (hmac : calculateMac (replyMeta (enc.length + 16)) enc client.sc.macKey = .returns mac) :
    (openReply ⟨lead.toList ++ enc, swOk⟩).run client =
      if mac = lead then .ret (.returns (.ok (parseResponse plain), setIv mac client))
      else .ret (.returns (.error "invalid response MAC", client)) := by
  have hlead := lead.toList_length
  have hlen : (lead.toList ++ enc).length = enc.length + 16 := by
    rw [List.length_append, hlead, Nat.add_comm]
  have hrmac : subslice (lead.toList ++ enc) 0 16 = .returns lead.toList := by
    rw [subslice, if_pos ⟨Nat.zero_le _, by omega⟩, KeycardAttest.slice, List.drop_zero,
      List.take_left' hlead]
  have hrdata : subslice (lead.toList ++ enc) 16 (enc.length + 16) = .returns enc := by
    rw [subslice, if_pos ⟨by omega, hlen.ge⟩, KeycardAttest.slice,
      List.drop_left' hlead, List.take_of_length_le (by omega)]
  rw [openReply, Method.run_get_bind, if_neg fun h => h rfl]
  simp only [hrmac, hlen, hrdata, hplain, hmac, Method.run_lift_bind]
  by_cases hsame : mac = lead
  · rw [if_pos hsame, if_neg fun h => h (congrArg List.Vector.toList hsame)]
    rfl
  · rw [if_neg hsame, if_pos fun h => hsame (List.Vector.toList_injective h)]
    rfl

end Channel

section Sample

/-- Sixteen bytes, as they are written in one number. -/
def block (n : Nat) : Bytes 16 :=
  List.Vector.ofFn fun i => UInt8.ofNat (n >>> (8 * (15 - i.val)))

/-- AES-256 under two keys, on the blocks of one exchange. -/
def sampleBlocks (key : Bytes 32) : List (Bytes 16 × Bytes 16) :=
  if key.head = 0 then
    [(block 0x31323334353680000000000000000000, block 0x0ebc2320bb0031f46220cd6231a20f88),
      (block 0x61a1504f3d8f1ba247fb84d8c6b42889, block 0x512efbbaa7b95ddc1635444da6b859eb)]
  else
    [(block 0x80200000200000000000000000000000, block 0x99261a9b8105f307d2ea0090a6e01a89),
      (block 0x979a39bb3a05c2f3b0cacdf297421501, block 0xf1a1d04f3d8f1ba247fb84d8c6b42889),
      (block 0x71a1d04f3d8f1ba247fb84d8c6b42889, block 0x87c29e8d9c3fc6209730b82a2a141c2e),
      (block 0x20000000000000000000000000000000, block 0x98c065841a60cbf960e6cbf9cde84b1d),
      (block 0xc9ee9e3ebdd9962576d38fb46b5012f6, block 0xd28b90710214cb0a8968476cea25a463),
      (block 0x528b90710214cb0a8968476cea25a463, block 0xdf1aa287cd2fea26a7ce938d5ea97e2a)]

def sampleAes (key : Bytes 32) : Equiv.Perm (Bytes 16) :=
  (sampleBlocks key).foldr (fun pair perm => (Equiv.swap pair.1 pair.2).trans perm)
    (Equiv.refl _)

@[reducible] def sampleCrypto : KeycardCrypto where
  SecretKey := Unit
  PublicKey := Unit
  sha256 := fun _ => List.Vector.replicate 32 0
  sha512 := fun _ => List.Vector.replicate 64 0
  pbkdf2HmacSha256 := fun _ _ _ => List.Vector.replicate 32 0
  nfkd := id
  encryptBlock := fun key b => sampleAes key b
  decryptBlock := fun key b => (sampleAes key).symm b
  fromSec1Bytes := fun _ => .ok ()
  diffieHellman := fun _ _ => List.Vector.replicate 32 0
  ephemeralPublic := fun _ => List.Vector.replicate 65 0

/-- A client whose keys are the numbers from zero to 31 and those from 32 to 63. -/
def sampleClient : Keycard :=
  { connect with
    sc :=
      { connect.sc with
        isOpen := true
        encKey := List.Vector.ofFn fun i => UInt8.ofNat i.val
        macKey := List.Vector.ofFn fun i => UInt8.ofNat (32 + i.val) } }

end Sample

end Keycard

end RlnGifter
