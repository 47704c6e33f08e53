/-
The client of a card.  Each of its operations sends the card one or two commands; over
an open secure channel a command is encrypted under a MAC, which becomes the iv of what
follows.
-/
import RlnGifter.DerivationPath
import RlnGifter.KeycardCrypto
import RlnGifter.Methods

namespace RlnGifter

structure SecureChannel where
  isOpen : Bool
  secret : Bytes 32
  ephPub : List UInt8
  encKey : Bytes 32
  macKey : Bytes 32
  iv : Bytes 16

/-- The client, without the handles of the reader. -/
structure Keycard where
  sc : SecureChannel
  initialized : Bool
  instanceUid : List UInt8
  pairingIndex : UInt8
  pairingKey : List UInt8

namespace Keycard

open Apdu

/-- `KEYCARD_INSTANCE_AID`. -/
def keycardInstanceAid : List UInt8 := [0xA0, 0x00, 0x00, 0x08, 0x04, 0x00, 0x01, 0x01, 0x01]

def insSelect : UInt8 := 0xA4
def insOpenSecureChannel : UInt8 := 0x10
def insMutuallyAuthenticate : UInt8 := 0x11
def insPair : UInt8 := 0x12
def insUnpair : UInt8 := 0x13
def insIdentify : UInt8 := 0x14
def insVerifyPin : UInt8 := 0x20
def insExportKey : UInt8 := 0xC2

def p1PairFirst : UInt8 := 0x00
def p1PairFinal : UInt8 := 0x01
def p1ExportDerive : UInt8 := 0x01
def p2ExportPrivAndPub : UInt8 := 0x00

def swOk : UInt16 := 0x9000

/-- The client that `connect` returns. -/
def connect : Keycard where
  sc :=
    { isOpen := false
      secret := List.Vector.replicate 32 0
      ephPub := []
      encKey := List.Vector.replicate 32 0
      macKey := List.Vector.replicate 32 0
      iv := zeroBlock }
  initialized := false
  instanceUid := []
  pairingIndex := 0
  pairingKey := []

/-- What is sent to the card: a command, as the bytes it is serialized to. -/
structure Sent where
  cmd : Command
  raw : List UInt8

/-- The reader hands back the bytes of a reply, or its own error. -/
abbrev Client (α : Type) : Type :=
  Method Sent (fun _ => Except String (List UInt8)) Keycard String α

/-- An operation of the client with the reply it got. -/
abbrev Exchange : Type := Event fun _ : Sent => Except String (List UInt8)

/-- A command and its bytes. -/
def sending (cmd : Command) : Sent := ⟨cmd, cmd.serialize⟩

/-- The formatting of a status word. -/
def hexWord (w : UInt16) : String :=
  String.ofList ([12, 8, 4, 0].map fun shift => (Nat.digitChar (w.toNat >>> shift % 16)).toUpper)

def byteAt (data : List UInt8) (i : Nat) : Ending UInt8 :=
  match data[i]? with
  | some b => .returns b
  | none => .panics

def transmit (cmd : Command) : Client Response := do
  let answer ← Method.call (sending cmd)
  let resp ← Method.ofExcept (answer.mapError ("transmit: " ++ ·))
  return parseResponse resp

/-- A command that is sent is answered; what follows goes on from the reply. -/
theorem run_transmit_bind {α : Type} (cmd : Command) (f : Response → Client α)
    (card : Keycard) : (transmit cmd >>= f).run card = .op (sending cmd) fun
      | .ok raw => (f (parseResponse raw)).run card
      | .error e => .ret (.returns (.error ("transmit: " ++ e), card)) := by
  refine congrArg (Program.op (sending cmd)) (funext fun answer => ?_)
  cases answer with
  | error e => rfl
  | ok raw => rfl

/-- A command that is sent without the channel. -/
theorem ensures_transmit {Q : List Exchange → Ending (Except String Response × Keycard) → Prop} :
    (transmit cmd).Ensures card Q ↔
      (∀ e, Q [⟨sending cmd, .error e⟩] (.returns (.error ("transmit: " ++ e), card))) ∧
      ∀ raw, Q [⟨sending cmd, .ok raw⟩] (.returns (.ok (parseResponse raw), card)) := by
  simp only [transmit, Method.ensures_bind, Method.ensures_call, Method.before_ok,
    Method.ensures_ofExcept]
  constructor
  · intro h
    exact ⟨fun e => by simpa [Except.mapError] using h (.error e),
      fun raw => by simpa [Except.mapError] using h (.ok raw)⟩
  · rintro ⟨herror, hok⟩ answer
    cases answer with
    | error e => simpa [Except.mapError] using herror e
    | ok raw => simpa [Except.mapError] using hok raw

theorem ensures_transmit_bind {α : Type} {f : Response → Client α}
    {R : List Exchange → Ending (Except String α × Keycard) → Prop} :
    (transmit cmd >>= f).Ensures card R ↔
      (∀ e, R [⟨sending cmd, .error e⟩] (.returns (.error ("transmit: " ++ e), card))) ∧
      ∀ raw, (f (parseResponse raw)).Ensures card fun more c =>
        R (⟨sending cmd, .ok raw⟩ :: more) c := by
  rw [Method.ensures_bind, ensures_transmit]
  exact and_congr (forall_congr' fun e => Method.before_error) Iff.rfl

/-- `meta`: the header of a command, and the length of its data as one byte. -/
def commandMeta (cmd : Command) (length : Nat) : Bytes 16 :=
  ⟨[cmd.cla, cmd.ins, cmd.p1, cmd.p2, UInt8.ofNat length] ++ List.replicate 11 0, rfl⟩

/-- `rmeta`: the length of a reply as one byte. -/
def replyMeta (length : Nat) : Bytes 16 := ⟨UInt8.ofNat length :: List.replicate 15 0, rfl⟩

def setIv (iv : Bytes 16) (card : Keycard) : Keycard := { card with sc := { card.sc with iv } }

def selectCommand : Command :=
  { Command.new 0x00 insSelect 0x04 0x00 keycardInstanceAid with le := some 0 }

section Client

variable [KeycardCrypto]

/-- The part of `send_sc` before the command is sent. -/
def sealCommand (cmd : Command) : Client Command := do
  let card ← Method.get
  let enc ← Method.lift (encryptData cmd.data card.sc.encKey card.sc.iv)
  let iv ← Method.lift (calculateMac (commandMeta cmd (enc.length + 16)) enc card.sc.macKey)
  Method.modify (setIv iv)
  return { cmd with data := iv.toList ++ enc }

/-- The part of `send_sc` after the reply, over an open channel. -/
def openReply (resp : Response) : Client Response := do
  let card ← Method.get
  if resp.sw ≠ swOk then
    Method.fail ("secure channel outer SW " ++ hexWord resp.sw)
  let rmac ← Method.lift (subslice resp.data 0 16)
  let rdata ← Method.lift (subslice resp.data 16 resp.data.length)
  let plain ← Method.lift (decryptData rdata card.sc.encKey card.sc.iv)
  let newIv ← Method.lift (calculateMac (replyMeta resp.data.length) rdata card.sc.macKey)
  if newIv.toList ≠ rmac then
    Method.fail "invalid response MAC"
  Method.modify (setIv newIv)
  return parseResponse plain

def sendSc (cmd : Command) : Client Response := do
  let card ← Method.get
  if card.sc.isOpen then do
    let cmd ← sealCommand cmd
    let resp ← transmit cmd
    openReply resp
  else transmit cmd

/-- The card's public key in the reply to SELECT.  A card without a key of its own is
told by its first byte. -/
def readCardPub (data : List UInt8) : Client (List UInt8) :=
  if data.head? = some 0x80 then do
    Method.modify fun card => { card with initialized := false, instanceUid := [] }
    Method.lift (subslice data 2 data.length)
  else do
    let tpl ← Method.need "no A4 app-info template" (findTag data 0xA4)
    Method.modify fun card => { card with initialized := true }
    let uid ← Method.need "no instance uid" (findTag tpl 0x8F)
    Method.modify fun card => { card with instanceUid := uid }
    Method.need "no secure-channel pubkey" (findTag tpl 0x80)

/-- The part of `select` after the card's key.  The channel is closed where nothing can
fail any more. -/
def installKey (eph : KeycardCrypto.SecretKey) (cardPub : List UInt8) : Client Unit := do
  let (secret, ephPub) ← Method.ofExcept (ecdhGenerate eph cardPub)
  Method.modify fun card =>
    { card with sc := { card.sc with secret, ephPub, isOpen := false } }

/-- The part of `select` after the card has accepted it. -/
def installCard (eph : KeycardCrypto.SecretKey) (data : List UInt8) : Client Unit := do
  let cardPub ← readCardPub data
  installKey eph cardPub

def select (eph : KeycardCrypto.SecretKey) : Client Unit := do
  let resp ← transmit selectCommand
  if resp.sw ≠ swOk then
    Method.fail ("SELECT SW " ++ hexWord resp.sw)
  installCard eph resp.data

/-- The part of `pair` after the card's cryptogram. -/
def finishPairing (secretHash : Bytes 32) (cardChallenge : List UInt8) : Client Unit := do
  let clientCryptogram := KeycardCrypto.sha256 (secretHash.toList ++ cardChallenge)
  let resp ← transmit (Command.new claGp insPair p1PairFinal 0 clientCryptogram.toList)
  if resp.sw ≠ swOk then
    Method.fail ("PAIR step2 SW " ++ hexWord resp.sw)
  let pairingIndex ← Method.lift (byteAt resp.data 0)
  Method.modify fun card => { card with pairingIndex }
  let salt ← Method.lift (subslice resp.data 1 resp.data.length)
  Method.modify fun card =>
    { card with pairingKey := (KeycardCrypto.sha256 (secretHash.toList ++ salt)).toList }

/-- The part of `pair` after the card's first reply. -/
def answerChallenge (challenge : Bytes 32) (pairingPass : String) (data : List UInt8) :
    Client Unit := do
  let cardCryptogram ← Method.lift (subslice data 0 32)
  let cardChallenge ← Method.lift (subslice data 32 64)
  let secretHash := pairingSecretHash pairingPass
  if (KeycardCrypto.sha256 (secretHash.toList ++ challenge.toList)).toList ≠
      cardCryptogram then
    Method.fail "invalid card cryptogram (wrong pairing password?)"
  finishPairing secretHash cardChallenge

def pair (challenge : Bytes 32) (pairingPass : String) : Client Unit := do
  let resp ← transmit (Command.new claGp insPair p1PairFirst 0 challenge.toList)
  if resp.sw = 0x6A84 then
    Method.fail "no available pairing slots"
  if resp.sw ≠ swOk then
    Method.fail ("PAIR step1 SW " ++ hexWord resp.sw)
  answerChallenge challenge pairingPass resp.data

/-- The part of `open_secure_channel` after the keys.  The channel counts as open before
the card has answered over it. -/
def mutuallyAuthenticate (encKey macKey : Bytes 32) (iv : Bytes 16) (data : Bytes 32) :
    Client Unit := do
  Method.modify fun card => { card with sc := { card.sc with encKey, macKey, iv, isOpen := true } }
  let resp ← sendSc (Command.new claGp insMutuallyAuthenticate 0 0 data.toList)
  if resp.sw ≠ swOk then
    Method.fail ("MUTUALLY_AUTHENTICATE SW " ++ hexWord resp.sw)

def openSecureChannel (data : Bytes 32) : Client Unit := do
  let card ← Method.get
  let resp ← transmit
    (Command.new claGp insOpenSecureChannel card.pairingIndex 0 card.sc.ephPub)
  if resp.sw ≠ swOk then
    Method.fail ("OPEN_SECURE_CHANNEL SW " ++ hexWord resp.sw)
  let (encKey, macKey, iv) ←
    Method.lift (deriveSessionKeys card.sc.secret card.pairingKey resp.data)
  mutuallyAuthenticate encKey macKey iv data

def verifyPin (pin : String) : Client Unit := do
  let resp ← sendSc (Command.new claGp insVerifyPin 0 0 (utf8 pin))
  if resp.sw ≠ swOk then
    if resp.sw &&& 0x63C0 = 0x63C0 then
      Method.fail ("wrong PIN, " ++ toString (resp.sw &&& 0x000F).toNat ++ " attempts left")
    else Method.fail ("VERIFY_PIN SW " ++ hexWord resp.sw)

/-- `to_be_bytes`. -/
def toBeBytes (n : UInt32) : List UInt8 :=
  [(n >>> 24).toUInt8, (n >>> 16).toUInt8, (n >>> 8).toUInt8, n.toUInt8]

/-- The part of `export_key` after the reply. -/
def readKey (resp : Response) : Client (List UInt8) := do
  if resp.sw ≠ swOk then
    Method.fail ("EXPORT_KEY SW " ++ hexWord resp.sw)
  let tpl ← Method.need "no A1 export template" (findTag resp.data 0xA1)
  Method.need "no private key in export" (findTag tpl 0x81)

def exportKey (path : String) : Client (List UInt8) := do
  let indices ← Method.ofExcept (decodePath path)
  let resp ← sendSc (Command.new claGp insExportKey p1ExportDerive p2ExportPrivAndPub
    (indices.flatMap toBeBytes))
  readKey resp

def identify (challenge : List UInt8) : Client (List UInt8) := do
  let resp ← sendSc (Command.new claGp insIdentify 0 0 challenge)
  if resp.sw ≠ swOk then
    Method.fail ("IDENTIFY SW " ++ hexWord resp.sw)
  return resp.data

def unpair (index : UInt8) : Client Unit := do
  let resp ← sendSc (Command.new claGp insUnpair index 0 [])
  if resp.sw ≠ swOk then
    Method.fail ("UNPAIR SW " ++ hexWord resp.sw)

/-- What the client's owner may ask for, with the random bytes that it draws. -/
inductive Operation where
  | select (eph : KeycardCrypto.SecretKey)
  | pair (challenge : Bytes 32) (pairingPass : String)
  | openSecureChannel (data : Bytes 32)
  | verifyPin (pin : String)
  | exportKey (path : String)
  | identify (challenge : List UInt8)
  | unpair (index : UInt8)

/-- What an operation returns besides its success is left out. -/
def Operation.perform : Operation → Client Unit
  | .select eph => Keycard.select eph
  | .pair challenge pairingPass => Keycard.pair challenge pairingPass
  | .openSecureChannel data => Keycard.openSecureChannel data
  | .verifyPin pin => Keycard.verifyPin pin
  | .exportKey path => do
      let _key ← Keycard.exportKey path
      return ()
  | .identify challenge => do
      let _data ← Keycard.identify challenge
      return ()
  | .unpair index => Keycard.unpair index

end Client

end Keycard

end RlnGifter
