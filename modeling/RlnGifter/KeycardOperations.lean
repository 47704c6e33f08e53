/-
What each operation of the client does: the commands it sends, the replies it survives
and what it leaves of the channel.
-/
import RlnGifter.KeycardSteps
import RlnGifter.Tlv

namespace RlnGifter

namespace Keycard

open Apdu

/-- The searches for the card's public key come to an end. -/
def ReadsPub (data : List UInt8) : Prop :=
  if data.head? = some 0x80 then 2 ≤ data.length
  else Ends data 0xA4 ∧ ∀ tpl, findTag data 0xA4 = .returns (some tpl) →
    Ends tpl 0x8F ∧ ∀ uid, findTag tpl 0x8F = .returns (some uid) → Ends tpl 0x80

/-- The searches for an exported key come to an end. -/
def ReadsKey (data : List UInt8) : Prop :=
  Ends data 0xA1 ∧ ∀ tpl, findTag data 0xA1 = .returns (some tpl) → Ends tpl 0x81

/-- The reply to SELECT has the card's public key: behind two bytes, or with an id in
the template of an initialized card. -/
def CardPub (data pub : List UInt8) : Prop :=
  if data.head? = some 0x80 then 2 ≤ data.length ∧ pub = data.drop 2
  else ∃ tpl uid, findTag data 0xA4 = .returns (some tpl) ∧
    findTag tpl 0x8F = .returns (some uid) ∧ findTag tpl 0x80 = .returns (some pub)

theorem subslice_from (data : List UInt8) {n : Nat} (h : n ≤ data.length) :
    subslice data n data.length = .returns (data.drop n) := by
  rw [subslice, if_pos ⟨h, Nat.le_refl _⟩, KeycardAttest.slice,
    List.take_of_length_le (by rw [List.length_drop])]

theorem subslice_from_returns (data : List UInt8) {n : Nat} :
    (subslice data n data.length).Returns ↔ n ≤ data.length := by
  by_cases h : n ≤ data.length
  · rw [subslice_from data h]
    exact iff_of_true (Ending.returns_returns _) h
  · rw [subslice, if_neg fun hrange => h hrange.1]
    exact iff_of_false Ending.not_returns_panics h

theorem subslice_to (data : List UInt8) {start stop : Nat} (h : start ≤ stop) :
    (subslice data start stop).Returns ↔ stop ≤ data.length := by
  by_cases hstop : stop ≤ data.length
  · rw [subslice, if_pos ⟨h, hstop⟩]
    exact iff_of_true (Ending.returns_returns _) hstop
  · rw [subslice, if_neg fun hrange => hstop hrange.2]
    exact iff_of_false Ending.not_returns_panics hstop

theorem readCardPub_settles (data : List UInt8) (card : Keycard) :
    (readCardPub data).Settles card (ReadsPub data) (CardPub data)
      fun card' => card'.sc = card.sc := by
  rw [readCardPub]
  by_cases hfirst : data.head? = some 0x80
  · rw [if_pos hfirst]
    refine Method.Settles.modify_bind (Method.Settles.congr (Method.settles_lift rfl) ?_
      fun pub => ?_)
    · rw [ReadsPub, if_pos hfirst, subslice_from_returns]
    · rw [CardPub, if_pos hfirst]
      by_cases hlong : 2 ≤ data.length
      · simp [subslice_from data hlong, hlong, eq_comm]
      · simp [subslice, hlong]
  · rw [if_neg hfirst]
    refine Method.Settles.congr (Method.Settles.andThen (Method.settles_need rfl)
      fun tpl card' _ hcard' => Method.Settles.modify_bind
        (Method.Settles.andThen (Method.settles_need hcard') fun uid card'' _ hcard'' =>
          Method.Settles.modify_bind (Method.settles_need hcard''))) ?_ fun pub => ?_
    · simp only [ReadsPub, if_neg hfirst, findTag_returns]
    · rw [CardPub, if_neg hfirst]
      constructor
      · rintro ⟨tpl, htpl, uid, huid, hpub⟩
        exact ⟨tpl, uid, htpl, huid, hpub⟩
      · rintro ⟨tpl, uid, htpl, huid, hpub⟩
        exact ⟨tpl, htpl, uid, huid, hpub⟩

theorem CardPub.unique {data pub pub' : List UInt8} (h : CardPub data pub)
    (h' : CardPub data pub') : pub = pub' := by
  rw [CardPub] at h h'
  split at h
  · rename_i hfirst
    rw [if_pos hfirst] at h'
    rw [h.2, h'.2]
  · rename_i hfirst
    rw [if_neg hfirst] at h'
    obtain ⟨tpl, uid, htpl, -, hpub⟩ := h
    obtain ⟨tpl', uid', htpl', -, hpub'⟩ := h'
    rw [htpl, Ending.returns.injEq, Option.some.injEq] at htpl'
    subst htpl'
    rw [hpub, Ending.returns.injEq, Option.some.injEq] at hpub'
    exact hpub'

/-- A check of the status that an operation ends with. -/
theorem check_settles {card : Keycard} {sw : UInt16} {fails passes : Client Unit}
    {K : Keycard → Prop}
    (hfails : fails.Settles card True (fun _ => False) K)
    (hpasses : passes.Settles card True (fun _ => True) K) :
    (if sw ≠ swOk then fails else passes).Settles card True (fun _ => sw = swOk) K := by
  by_cases hsw : sw = swOk
  · rw [if_neg fun h => h hsw]
    exact hpasses.congr Iff.rfl fun _ => iff_of_true trivial hsw
  · rw [if_pos hsw]
    exact hfails.congr Iff.rfl fun _ => iff_of_false id hsw

theorem settles_done {card : Keycard} {K : Keycard → Prop} (hK : K card) :
    (pure () : Client Unit).Settles card True (fun _ => True) K :=
  (Method.settles_pure hK).congr Iff.rfl fun _ => iff_of_true rfl trivial

theorem readKey_settles {card : Keycard} {K : Keycard → Prop} (resp : Response) (hK : K card) :
    (readKey resp >>= fun _ => pure ()).Settles card (resp.sw = swOk → ReadsKey resp.data)
      (fun _ => resp.sw = swOk ∧ ∃ tpl key, findTag resp.data 0xA1 = .returns (some tpl) ∧
        findTag tpl 0x81 = .returns (some key)) K := by
  rw [readKey]
  by_cases hsw : resp.sw = swOk
  · rw [if_neg fun h => h hsw]
    refine Method.Settles.congr (Method.Settles.andThen (Method.Settles.andThen
      (Method.settles_need hK) fun tpl card' _ hK' => Method.settles_need hK')
      fun key card' _ hK' => settles_done hK') ?_ fun _ => ?_
    · simp [ReadsKey, findTag_returns, hsw]
    · constructor
      · rintro ⟨key, ⟨tpl, htpl, hkey⟩, -⟩
        exact ⟨hsw, tpl, key, htpl, hkey⟩
      · rintro ⟨-, tpl, key, htpl, hkey⟩
        exact ⟨key, ⟨tpl, htpl, hkey⟩, trivial⟩
  · rw [if_pos hsw]
    exact (Method.settles_fail hK).congr (iff_of_true trivial fun h => absurd h hsw)
      fun _ => iff_of_false id fun h => hsw h.1

section Operations

variable [KeycardCrypto]

/-- A key pair's public half that the reply to SELECT has room for. -/
def DescribesCard (data : List UInt8) : Prop :=
  ∃ pub key, CardPub data pub ∧ KeycardCrypto.fromSec1Bytes pub = .ok key

/-- The card has answered over the channel that its first reply opened. -/
def Authenticates (card : Keycard) (data : List UInt8) (trace : List Exchange) : Prop :=
  ∃ keys first second resp,
    deriveSessionKeys card.sc.secret card.pairingKey data = .returns keys ∧
    trace = [first, second] ∧ OpensTo keys.1 keys.2.1 second resp ∧ resp.sw = swOk

/-- The replies that an operation comes through. -/
def Harmless : Operation → Keycard → List Exchange → Prop
  | .select _, _, trace => ∀ data, accepted trace 0 = some data → ReadsPub data
  | .pair _ _, _, trace =>
      (∀ data, accepted trace 0 = some data → 64 ≤ data.length) ∧
        ∀ data, accepted trace 1 = some data → data ≠ []
  | .openSecureChannel _, _, trace =>
      (∀ data, accepted trace 0 = some data → 48 ≤ data.length) ∧
        ∀ data, accepted trace 1 = some data → Sealed data
  | .exportKey _, card, trace => ChannelHolds card.sc trace ∧
      ∀ exchange ∈ trace, ∀ resp, Yields card.sc exchange resp → resp.sw = swOk →
        ReadsKey resp.data
  | _, card, trace => ChannelHolds card.sc trace

/-- The card replies `9000` to the command of an operation. -/
def Confirms (card : Keycard) (trace : List Exchange) : Prop :=
  ∃ exchange ∈ trace, ∃ resp, Yields card.sc exchange resp ∧ resp.sw = swOk

/-- The replies with which an operation succeeds. -/
def Succeeds : Operation → Keycard → List Exchange → Prop
  | .select _, _, trace => ∃ data, accepted trace 0 = some data ∧ DescribesCard data
  | .pair challenge pairingPass, _, trace => ∃ data salt,
      accepted trace 0 = some data ∧ 64 ≤ data.length ∧
      (KeycardCrypto.sha256 ((pairingSecretHash pairingPass).toList ++ challenge.toList)).toList =
        data.take 32 ∧
      accepted trace 1 = some salt ∧ salt ≠ []
  | .openSecureChannel _, card, trace => ∃ data, accepted trace 0 = some data ∧
      Authenticates card data trace
  | .exportKey _, card, trace => ∃ exchange ∈ trace, ∃ resp tpl key,
      Yields card.sc exchange resp ∧ resp.sw = swOk ∧
      findTag resp.data 0xA1 = .returns (some tpl) ∧ findTag tpl 0x81 = .returns (some key)
  | _, card, trace => Confirms card trace

/-- Whether the channel is open after an operation. -/
def Leaves (op : Operation) (card : Keycard) (trace : List Exchange) (card' : Keycard) : Prop :=
  match op with
  | .select _ => (Succeeds op card trace → card'.sc.isOpen = false) ∧
      (¬ Succeeds op card trace → card'.sc.isOpen = card.sc.isOpen)
  | .openSecureChannel _ => (accepted trace 0 = none → card'.sc.isOpen = card.sc.isOpen) ∧
      ∀ data, accepted trace 0 = some data → card'.sc.isOpen = true
  | _ => card'.sc.isOpen = card.sc.isOpen

/-- The one exchange of a command. -/
def Asks (sc : SecureChannel) (cmd : Command) (trace : List Exchange) : Prop :=
  ∃ exchange, trace = [exchange] ∧ Wraps sc cmd exchange.1

/-- The commands that an operation sends. -/
def SentBy : Operation → Keycard → List Exchange → Prop
  | .select _, _, trace => ∃ answer, trace = [⟨sending selectCommand, answer⟩]
  | .pair challenge _, _, trace => ∃ answer more,
      trace = ⟨sending (Command.new claGp insPair p1PairFirst 0 challenge.toList), answer⟩ ::
        more ∧
      ∀ exchange ∈ more, ∃ cryptogram : Bytes 32, exchange.1 =
        sending (Command.new claGp insPair p1PairFinal 0 cryptogram.toList)
  | .openSecureChannel data, card, trace => ∃ answer more,
      trace = ⟨sending
        (Command.new claGp insOpenSecureChannel card.pairingIndex 0 card.sc.ephPub), answer⟩ ::
        more ∧
      (more = [] ∨ ∃ reply encKey macKey iv, accepted trace 0 = some reply ∧
        deriveSessionKeys card.sc.secret card.pairingKey reply =
          .returns (encKey, macKey, iv) ∧
        Asks { card.sc with encKey, macKey, iv, isOpen := true }
          (Command.new claGp insMutuallyAuthenticate 0 0 data.toList) more)
  | .verifyPin pin, card, trace =>
      Asks card.sc (Command.new claGp insVerifyPin 0 0 (utf8 pin)) trace
  | .exportKey path, card, trace =>
      match decodePath path with
      | .error _ => trace = []
      | .ok indices => Asks card.sc (Command.new claGp insExportKey p1ExportDerive
          p2ExportPrivAndPub (indices.flatMap toBeBytes)) trace
  | .identify challenge, card, trace =>
      Asks card.sc (Command.new claGp insIdentify 0 0 challenge) trace
  | .unpair index, card, trace => Asks card.sc (Command.new claGp insUnpair index 0 []) trace

/-- What an operation does, and how it ends. -/
structure Acts (op : Operation) (card : Keycard) (trace : List Exchange)
    (c : Ending (Except String Unit × Keycard)) : Prop where
  sent : SentBy op card trace
  comes : Method.Comes (Harmless op card trace) (fun _ => Succeeds op card trace)
    (fun card' => Leaves op card trace card' ∧
      (card'.sc.ephPub = card.sc.ephPub ∨ card'.sc.ephPub.length = 65)) c

variable {card : Keycard}

/-- The channel after a SELECT that the card accepted. -/
def Installed (card : Keycard) (data : List UInt8) (card' : Keycard) : Prop :=
  (DescribesCard data → card'.sc.isOpen = false) ∧
    (¬ DescribesCard data → card'.sc.isOpen = card.sc.isOpen) ∧
    (card'.sc.ephPub = card.sc.ephPub ∨ card'.sc.ephPub.length = 65)

theorem installed_same {data : List UInt8} {card' : Keycard} (hsame : card'.sc = card.sc)
    (hnone : ¬ DescribesCard data) : Installed card data card' :=
  ⟨fun h => absurd h hnone, fun _ => congrArg SecureChannel.isOpen hsame,
    Or.inl (congrArg SecureChannel.ephPub hsame)⟩

theorem installKey_settles (eph : KeycardCrypto.SecretKey) {data pub : List UInt8}
    {card' : Keycard} (hpub : CardPub data pub) (hcard' : card'.sc = card.sc) :
    (installKey eph pub).Settles card' True
      (fun _ => ∃ key, KeycardCrypto.fromSec1Bytes pub = .ok key) (Installed card data) := by
  rw [installKey]
  cases hkey : KeycardCrypto.fromSec1Bytes pub with
  | error e =>
      have hnone : ¬ DescribesCard data := by
        rintro ⟨pub', key, hpub', hkey'⟩
        rw [← hpub.unique hpub', hkey] at hkey'
        cases hkey'
      refine ⟨.returns (.error ("card pubkey: " ++ e), card'), ?_,
        .failed _ _ trivial nofun (installed_same hcard' hnone)⟩
      rw [ecdhGenerate, hkey]
      rfl
  | ok key =>
      have hfound : DescribesCard data := ⟨pub, key, hpub, hkey⟩
      refine ⟨.returns (.ok (), { card' with sc := { card'.sc with
        secret := KeycardCrypto.diffieHellman eph key
        ephPub := (KeycardCrypto.ephemeralPublic eph).toList
        isOpen := false } }), ?_,
        .yielded _ _ trivial (fun _ => iff_of_true ⟨key, rfl⟩ rfl)
          ⟨fun _ => rfl, fun h => absurd hfound h,
            Or.inr (KeycardCrypto.ephemeralPublic eph).toList_length⟩⟩
      rw [ecdhGenerate, hkey]
      rfl

theorem installCard_settles (eph : KeycardCrypto.SecretKey) (data : List UInt8) :
    (installCard eph data).Settles card (ReadsPub data) (fun _ => DescribesCard data)
      (Installed card data) := by
  have hall := (readCardPub_settles data card).bind
    (fun pub card' hpub hcard' => installKey_settles eph hpub hcard')
    fun card' hcard' hnone => installed_same hcard' fun ⟨pub, key, hpub, hkey⟩ => hnone pub hpub
  refine hall.congr (and_iff_left fun _ _ => trivial) fun _ => ?_
  constructor
  · rintro ⟨pub, hpub, key, hkey⟩
    exact ⟨pub, key, hpub, hkey⟩
  · rintro ⟨pub, key, hpub, hkey⟩
    exact ⟨pub, hpub, key, hkey⟩

/-- The operations that start without the channel. -/
def Operation.Direct : Operation → Prop
  | .select _ | .pair _ _ | .openSecureChannel _ => True
  | _ => False

/-- Such an operation changes nothing if the card does not answer `9000`. -/
theorem Operation.Direct.refused {op : Operation} {exchange : Exchange} {e : String}
    (hop : op.Direct) (hsent : SentBy op card [exchange]) (h : accepted [exchange] 0 = none) :
    Acts op card [exchange] (.returns (.error e, card)) := by
  have hstays : Harmless op card [exchange] ∧ ¬ Succeeds op card [exchange] ∧
      Leaves op card [exchange] card := by
    cases op with
    | select eph => simp [Harmless, Succeeds, Leaves, h]
    | pair challenge pairingPass => simp [Harmless, Succeeds, Leaves, h, accepted]
    | openSecureChannel data => simp [Harmless, Succeeds, Leaves, h, accepted]
    | _ => exact hop.elim
  exact ⟨hsent, .failed _ _ hstays.1 (fun _ => hstays.2.1) ⟨hstays.2.2, Or.inl rfl⟩⟩

theorem select_acts (eph : KeycardCrypto.SecretKey) :
    (Operation.select eph).perform.Ensures card (Acts (.select eph) card) := by
  rw [Operation.perform, select, ensures_transmit_bind]
  constructor
  · intro e
    exact Operation.Direct.refused trivial ⟨_, rfl⟩ rfl
  · intro raw
    by_cases hsw : (parseResponse raw).sw = swOk
    · rw [if_neg fun h => h hsw]
      have hdata : accepted [⟨sending selectCommand, .ok raw⟩] 0 =
          some (parseResponse raw).data := by rw [accepted, if_pos hsw]
      have hsucceeds : Succeeds (.select eph) card [⟨sending selectCommand, .ok raw⟩] ↔
          DescribesCard (parseResponse raw).data := by
        simp only [Succeeds, hdata, Option.some.injEq, exists_eq_left']
      refine (installCard_settles eph _).ensures fun c hc =>
        ⟨⟨_, rfl⟩, hc.congr ?_ (fun _ => hsucceeds.symm) ?_⟩
      · simp [Harmless, hdata]
      · rintro card' ⟨hopens, hstays, heph⟩
        exact ⟨⟨fun h => hopens (hsucceeds.mp h), fun h => hstays (mt hsucceeds.mpr h)⟩, heph⟩
    · rw [if_pos hsw, Method.ensures_fail_bind]
      exact Operation.Direct.refused trivial ⟨_, rfl⟩ (accepted_refused hsw)

/-- What becomes of the reply to a command. -/
theorem command_ensures {α : Type} {cmd : Command} {f : Response → Client α}
    {G : Response → Prop} {Z : Response → α → Prop}
    (hf : ∀ (K : Keycard → Prop) resp card', K card' →
      (f resp).Settles card' (G resp) (Z resp) K) :
    (sendSc cmd >>= f).Ensures card fun trace c => ∃ exchange, trace = [exchange] ∧
      Wraps card.sc cmd exchange.1 ∧
      Method.Comes
        (ChannelHolds card.sc [exchange] ∧ ∀ resp, Yields card.sc exchange resp → G resp)
        (fun out => ∃ resp, Yields card.sc exchange resp ∧ Z resp out)
        (fun card' => ∃ iv, card' = setIv iv card) c := by
  rw [Method.ensures_bind]
  refine sendSc_outcome.mono fun trace c => ?_
  rintro ⟨exchange, htrace, hwraps, hc⟩
  exact hc.before
    (fun resp card' _ => hf (fun card' => ∃ iv, card' = setIv iv card) resp card')
    (fun _ hkept _ => hkept) fun c' hc' => ⟨exchange, htrace, hwraps, hc'⟩

/-- An operation of one command that fails just where the card does not confirm it. -/
theorem command_acts {op : Operation} {cmd : Command} {f : Response → Client Unit}
    (hperform : op.perform = sendSc cmd >>= f)
    (hf : ∀ (K : Keycard → Prop) resp card', K card' →
      (f resp).Settles card' True (fun _ => resp.sw = swOk) K)
    (hsent : ∀ trace, SentBy op card trace = Asks card.sc cmd trace)
    (hharmless : ∀ trace, Harmless op card trace = ChannelHolds card.sc trace)
    (hsucceeds : ∀ trace, Succeeds op card trace = Confirms card trace)
    (hleaves : ∀ trace card', Leaves op card trace card' =
      (card'.sc.isOpen = card.sc.isOpen)) :
    op.perform.Ensures card (Acts op card) := by
  rw [hperform]
  refine (command_ensures hf).mono ?_
  rintro trace c ⟨exchange, rfl, hwraps, hc⟩
  refine ⟨?_, hc.congr ?_ (fun _ => ?_) ?_⟩
  · rw [hsent]
    exact ⟨exchange, rfl, hwraps⟩
  · rw [hharmless]
    exact and_iff_left fun _ _ => trivial
  · rw [hsucceeds, Confirms]
    simp
  · rintro card' ⟨iv, rfl⟩
    rw [hleaves]
    exact ⟨rfl, Or.inl rfl⟩

theorem verifyPin_acts (pin : String) :
    (Operation.verifyPin pin).perform.Ensures card (Acts (.verifyPin pin) card) := by
  refine command_acts rfl (fun K resp card' hK => check_settles ?_ (settles_done hK))
    (fun _ => rfl) (fun _ => rfl) (fun _ => rfl) fun _ _ => rfl
  split
  · exact Method.settles_fail hK
  · exact Method.settles_fail hK

theorem identify_acts (challenge : List UInt8) :
    (Operation.identify challenge).perform.Ensures card (Acts (.identify challenge) card) := by
  refine command_acts Method.bind_assoc ?_ (fun _ => rfl) (fun _ => rfl) (fun _ => rfl)
    fun _ _ => rfl
  intro K resp card' hK
  by_cases hsw : resp.sw = swOk
  · rw [if_neg fun h => h hsw]
    exact (Method.settles_pure hK).congr Iff.rfl fun _ => iff_of_true rfl hsw
  · rw [if_pos hsw]
    exact (Method.settles_fail hK).congr Iff.rfl fun _ => iff_of_false id hsw

theorem unpair_acts (index : UInt8) :
    (Operation.unpair index).perform.Ensures card (Acts (.unpair index) card) :=
  command_acts rfl (fun _ _ _ hK => check_settles (Method.settles_fail hK) (settles_done hK))
    (fun _ => rfl) (fun _ => rfl) (fun _ => rfl) fun _ _ => rfl

theorem exportKey_acts (path : String) :
    (Operation.exportKey path).perform.Ensures card (Acts (.exportKey path) card) := by
  cases hpath : decodePath path with
  | error e =>
      have hperform : (Operation.exportKey path).perform = Method.fail e := by
        rw [Operation.perform, exportKey, hpath]
        rfl
      rw [hperform, Method.ensures_fail]
      refine ⟨?_, .failed _ _ ⟨fun _ _ => nofun, nofun⟩ (fun _ => ?_) ⟨rfl, Or.inl rfl⟩⟩
      · rw [SentBy, hpath]
      · rintro ⟨exchange, hexchange, -⟩
        cases hexchange
  | ok indices =>
      have hexport : exportKey path = sendSc (Command.new claGp insExportKey p1ExportDerive
          p2ExportPrivAndPub (indices.flatMap toBeBytes)) >>= readKey := by
        rw [exportKey, hpath]
        rfl
      rw [Operation.perform, hexport, Method.bind_assoc]
      refine (command_ensures fun K resp card' hK => readKey_settles resp hK).mono ?_
      rintro trace c ⟨exchange, rfl, hwraps, hc⟩
      refine ⟨?_, hc.congr ?_ (fun _ => ?_) ?_⟩
      · rw [SentBy, hpath]
        exact ⟨exchange, rfl, hwraps⟩
      · simp [Harmless]
      · simp [Succeeds]
      · rintro card' ⟨iv, rfl⟩
        exact ⟨rfl, Or.inl rfl⟩

/-- Keys are derived from any reply of 48 bytes. -/
theorem deriveSessionKeys_returns {secret : Bytes 32} {pairingKey data : List UInt8} :
    (deriveSessionKeys secret pairingKey data).Returns ↔ 48 ≤ data.length := by
  by_cases hlong : 48 ≤ data.length
  · rw [deriveSessionKeys, dif_pos hlong]
    exact iff_of_true (Ending.returns_returns _) hlong
  · rw [deriveSessionKeys, dif_neg hlong]
    exact iff_of_false Ending.not_returns_panics hlong

theorem mutuallyAuthenticate_acts (data : Bytes 32) {raw : List UInt8}
    {encKey macKey : Bytes 32} {iv : Bytes 16} (hsw : (parseResponse raw).sw = swOk)
    (hkeys : deriveSessionKeys card.sc.secret card.pairingKey (parseResponse raw).data =
      .returns (encKey, macKey, iv)) :
    (mutuallyAuthenticate encKey macKey iv data).Ensures card fun more c =>
      Acts (.openSecureChannel data) card
        (⟨sending (Command.new claGp insOpenSecureChannel card.pairingIndex 0 card.sc.ephPub),
          .ok raw⟩ :: more) c := by
  rw [mutuallyAuthenticate, Method.ensures_modify_bind]
  refine (command_ensures fun K resp card' hK => check_settles (Method.settles_fail hK)
    (settles_done hK)).mono ?_
  rintro trace c ⟨exchange, rfl, hwraps, hc⟩
  have hlong := deriveSessionKeys_returns.mp ⟨_, hkeys⟩
  refine ⟨⟨_, _, rfl, Or.inr ⟨_, _, _, _, accepted_answered hsw, hkeys, exchange, rfl, hwraps⟩⟩,
    hc.congr ?_ (fun _ => ?_) ?_⟩
  · simp [Harmless, ChannelHolds, accepted_answered hsw, hlong]
  · constructor
    · rintro ⟨resp, hresp, hconfirms⟩
      exact ⟨_, accepted_answered hsw, _, _, exchange, resp, hkeys, rfl, hresp, hconfirms⟩
    · rintro ⟨reply, hreply, keys, first, second, resp, hkeys', htrace, hresp, hconfirms⟩
      rw [accepted_answered hsw, Option.some.injEq] at hreply
      rw [← hreply, hkeys, Ending.returns.injEq] at hkeys'
      obtain ⟨-, htail⟩ := List.cons.inj htrace
      obtain ⟨rfl, -⟩ := List.cons.inj htail
      rw [← hkeys'] at hresp
      exact ⟨resp, hresp, hconfirms⟩
  · rintro card' ⟨iv', rfl⟩
    refine ⟨⟨fun hnone => ?_, fun _ _ => rfl⟩, Or.inl rfl⟩
    rw [accepted_answered hsw] at hnone
    cases hnone

theorem openSecureChannel_acts (data : Bytes 32) :
    (Operation.openSecureChannel data).perform.Ensures card
      (Acts (.openSecureChannel data) card) := by
  rw [Operation.perform, openSecureChannel, Method.ensures_get_bind, ensures_transmit_bind]
  constructor
  · intro e
    exact Operation.Direct.refused trivial ⟨_, _, rfl, Or.inl rfl⟩ rfl
  · intro raw
    by_cases hsw : (parseResponse raw).sw = swOk
    · rw [if_neg fun h => h hsw]
      by_cases hlong : 48 ≤ (parseResponse raw).data.length
      · obtain ⟨⟨encKey, macKey, iv⟩, hkeys⟩ := deriveSessionKeys_returns.mpr hlong
        rw [hkeys, Method.ensures_lift_bind]
        exact mutuallyAuthenticate_acts data hsw hkeys
      · rw [deriveSessionKeys, dif_neg hlong]
        refine (Method.ensures_ret (c := .panics) rfl).mpr ⟨⟨_, _, rfl, Or.inl rfl⟩,
          .stopped ?_ (fun _ => ?_) Ending.not_returns_panics⟩
        · rintro ⟨hfirst, -⟩
          exact hlong (hfirst _ (accepted_answered hsw))
        · rintro ⟨reply, -, keys, first, second, resp, -, htrace, -⟩
          cases htrace
    · rw [if_pos hsw, Method.ensures_fail_bind]
      exact Operation.Direct.refused trivial ⟨_, _, rfl, Or.inl rfl⟩ (accepted_refused hsw)

/-- The card's confirmation of a pairing has an index. -/
theorem finishPairing_ensures (secretHash : Bytes 32) (cardChallenge : List UInt8) :
    (finishPairing secretHash cardChallenge).Ensures card fun more c =>
      ∃ (exchange : Exchange) (cryptogram : Bytes 32), more = [exchange] ∧
        exchange.1 = sending (Command.new claGp insPair p1PairFinal 0 cryptogram.toList) ∧
        Method.Comes (∀ data, accepted [exchange] 0 = some data → data ≠ [])
          (fun _ => ∃ salt, accepted [exchange] 0 = some salt ∧ salt ≠ [])
          (fun card' => card'.sc = card.sc) c := by
  rw [finishPairing, ensures_transmit_bind]
  constructor
  · intro e
    exact ⟨_, _, rfl, rfl, .failed _ _ nofun nofun rfl⟩
  · intro raw
    by_cases hsw : (parseResponse raw).sw = swOk
    · rw [if_neg fun h => h hsw]
      cases hdata : (parseResponse raw).data with
      | nil =>
          refine (Method.ensures_ret (c := .panics) rfl).mpr ⟨_, _, rfl, rfl, .stopped ?_
            (fun _ => ?_) Ending.not_returns_panics⟩
          · intro hall
            exact hall _ (accepted_answered hsw) hdata
          · rintro ⟨salt, hsalt, hne⟩
            rw [accepted_answered hsw, hdata] at hsalt
            exact hne (Option.some.inj hsalt).symm
      | cons b salt =>
          have hne : (parseResponse raw).data ≠ [] := by
            rw [hdata]
            exact List.cons_ne_nil b salt
          rw [subslice_from (b :: salt) (Nat.le_add_left 1 _)]
          refine (Method.ensures_ret (c := .returns (.ok (), { card with
            pairingIndex := b
            pairingKey := (KeycardCrypto.sha256 (secretHash.toList ++ salt)).toList })) rfl).mpr
              ⟨_, _, rfl, rfl, .yielded _ _ ?_ (fun _ => iff_of_true ?_ rfl) rfl⟩
          · intro data hdata'
            rw [accepted_answered hsw] at hdata'
            exact Option.some.inj hdata' ▸ hne
          · exact ⟨_, accepted_answered hsw, hne⟩
    · rw [if_pos hsw, Method.ensures_fail_bind]
      refine ⟨_, _, rfl, rfl, .failed _ _ (fun data hdata => ?_) (fun _ => ?_) rfl⟩
      · rw [accepted_refused hsw] at hdata
        cases hdata
      · rintro ⟨salt, hsalt, -⟩
        rw [accepted_refused hsw] at hsalt
        cases hsalt

/-- A first reply with less than a cryptogram and a challenge stops the program. -/
theorem answerChallenge_short {challenge : Bytes 32} {pairingPass : String}
    {data : List UInt8} (hshort : ¬ 64 ≤ data.length) :
    ∃ c, (answerChallenge challenge pairingPass data).run card = .ret c ∧ ¬ c.Returns := by
  by_cases hfirst : (subslice data 0 32).Returns
  · obtain ⟨cardCryptogram, hcryptogram⟩ := hfirst
    rw [answerChallenge, hcryptogram, Method.run_lift_bind]
    apply Method.run_lift_bind_stops
    rwa [subslice_to data (by decide)]
  · exact Method.run_lift_bind_stops hfirst

theorem answerChallenge_acts (challenge : Bytes 32) (pairingPass : String)
    {raw : List UInt8} (hsw : (parseResponse raw).sw = swOk) :
    (answerChallenge challenge pairingPass (parseResponse raw).data).Ensures card fun more c =>
      Acts (.pair challenge pairingPass) card
        (⟨sending (Command.new claGp insPair p1PairFirst 0 challenge.toList), .ok raw⟩ :: more)
        c := by
  rw [answerChallenge]
  by_cases hlong : 64 ≤ (parseResponse raw).data.length
  · have hcryptogram : subslice (parseResponse raw).data 0 32 =
        .returns ((parseResponse raw).data.take 32) := by
      rw [subslice, if_pos ⟨Nat.zero_le _, by omega⟩, KeycardAttest.slice, List.drop_zero]
    obtain ⟨cardChallenge, hchallenge⟩ := (subslice_to (parseResponse raw).data
      (show 32 ≤ 64 by decide)).mpr hlong
    rw [hcryptogram, hchallenge, Method.ensures_lift_bind, Method.ensures_lift_bind]
    by_cases hmatch : (KeycardCrypto.sha256
        ((pairingSecretHash pairingPass).toList ++ challenge.toList)).toList =
          (parseResponse raw).data.take 32
    · rw [if_neg fun h => h hmatch]
      refine (finishPairing_ensures _ cardChallenge).mono ?_
      rintro trace c ⟨exchange, cryptogram, rfl, hsent, hc⟩
      refine ⟨⟨_, _, rfl, ?_⟩, hc.congr ?_ (fun _ => ?_) ?_⟩
      · intro exchange' hexchange
        rw [List.mem_singleton.mp hexchange]
        exact ⟨cryptogram, hsent⟩
      · simp [Harmless, accepted_answered hsw, hlong]
      · constructor
        · rintro ⟨salt, hsalt, hne⟩
          exact ⟨_, salt, accepted_answered hsw, hlong, hmatch, hsalt, hne⟩
        · rintro ⟨-, salt, -, -, -, hsalt, hne⟩
          exact ⟨salt, hsalt, hne⟩
      · intro card' hcard'
        exact ⟨congrArg SecureChannel.isOpen hcard',
          Or.inl (congrArg SecureChannel.ephPub hcard')⟩
    · rw [if_pos hmatch, Method.ensures_fail_bind]
      refine ⟨⟨_, _, rfl, List.forall_mem_nil _⟩, .failed _ _ ?_ (fun _ => ?_)
        ⟨rfl, Or.inl rfl⟩⟩
      · simp [Harmless, hlong, accepted]
      · rintro ⟨data, salt, hdata, -, hmatch', -⟩
        rw [accepted_answered hsw, Option.some.injEq] at hdata
        exact hmatch (hdata ▸ hmatch')
  · obtain ⟨c, hrun, hc⟩ := answerChallenge_short hlong
    refine (Method.ensures_ret hrun).mpr ⟨⟨_, _, rfl, List.forall_mem_nil _⟩,
      .stopped ?_ (fun _ => ?_) hc⟩
    · rintro ⟨hfirst, -⟩
      exact hlong (hfirst _ (accepted_answered hsw))
    · rintro ⟨data, salt, hdata, hlong', -⟩
      rw [accepted_answered hsw, Option.some.injEq] at hdata
      exact hlong (hdata ▸ hlong')

theorem pair_acts (challenge : Bytes 32) (pairingPass : String) :
    (Operation.pair challenge pairingPass).perform.Ensures card
      (Acts (.pair challenge pairingPass) card) := by
  have hsent : ∀ answer, SentBy (.pair challenge pairingPass) card
      [⟨sending (Command.new claGp insPair p1PairFirst 0 challenge.toList), answer⟩] :=
    fun answer => ⟨answer, [], rfl, List.forall_mem_nil _⟩
  rw [Operation.perform, pair, ensures_transmit_bind]
  constructor
  · intro e
    exact Operation.Direct.refused trivial (hsent _) rfl
  · intro raw
    by_cases hfull : (parseResponse raw).sw = 0x6A84
    · have hsw : (parseResponse raw).sw ≠ swOk := by
        rw [hfull]
        decide
      rw [if_pos hfull, Method.ensures_fail_bind]
      exact Operation.Direct.refused trivial (hsent _) (accepted_refused hsw)
    · rw [if_neg hfull]
      by_cases hsw : (parseResponse raw).sw = swOk
      · rw [if_neg fun h => h hsw]
        exact answerChallenge_acts challenge pairingPass hsw
      · rw [if_pos hsw, Method.ensures_fail_bind]
        exact Operation.Direct.refused trivial (hsent _) (accepted_refused hsw)

/-- What each operation does. -/
theorem perform_acts (op : Operation) : op.perform.Ensures card (Acts op card) := by
  cases op with
  | select eph => exact select_acts eph
  | pair challenge pairingPass => exact pair_acts challenge pairingPass
  | openSecureChannel data => exact openSecureChannel_acts data
  | verifyPin pin => exact verifyPin_acts pin
  | exportKey path => exact exportKey_acts path
  | identify challenge => exact identify_acts challenge
  | unpair index => exact unpair_acts index

end Operations

end Keycard

end RlnGifter
