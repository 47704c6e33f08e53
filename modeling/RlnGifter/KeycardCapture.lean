/-
The producer half of the keycard vector: an attestation is captured from the card at the
reader, bound to a commitment.  The card is selected and identified without a channel, so
neither a pairing nor a PIN is needed.
-/
import RlnGifter.Contract
import RlnGifter.KeycardOperations
import RlnGifter.Mint
import RlnGifter.Vectors

namespace RlnGifter

open Program

namespace Keycard

/-- What waiting for a change of a reader's state comes to. -/
inductive StatusChange where
  | state (present : Bool)
  | timeout
  | failed (e : String)

/-- What is asked of the readers, and of the card in one of them. -/
inductive ReaderOp where
  /-- `pcsc::Context::establish` -/
  | establish
  /-- `list_readers` -/
  | listReaders
  /-- `get_status_change` of one reader -/
  | getStatusChange (reader : List UInt8)
  /-- `pcsc::Context::connect` -/
  | connect (reader : List UInt8)
  /-- `pcsc::Card::transmit` -/
  | transmit (sent : Sent)

/-- What the readers answer. -/
abbrev ReaderAnswer : ReaderOp → Type
  | .establish => Except String Unit
  | .listReaders => Except String (List (List UInt8))
  | .getStatusChange _ => StatusChange
  | .connect _ => Except String Unit
  | .transmit _ => Except String (List UInt8)

/-- Programs that use the readers. -/
abbrev Reading (α : Type) : Type := Program ReaderOp ReaderAnswer α

def readerCardPresent : Reading (Except String Bool) := do
  match ← perform ReaderOp.establish with
  | .error e => return .error ("pcsc ctx: " ++ e)
  | .ok () =>
      match ← perform ReaderOp.listReaders with
      | .error e => return .error ("readers: " ++ e)
      | .ok [] => return .ok false
      | .ok (reader :: _) =>
          match ← perform (ReaderOp.getStatusChange reader) with
          | .state present => return .ok present
          | .timeout => return .ok false
          | .failed e => return .error ("status change: " ++ e)

/-- `Keycard::connect`: the client of the card in the first reader. -/
def connectReader : Reading (Except String Keycard) := do
  match ← perform ReaderOp.establish with
  | .error e => return .error ("pcsc ctx: " ++ e)
  | .ok () =>
      match ← perform ReaderOp.listReaders with
      | .error e => return .error ("readers: " ++ e)
      | .ok [] => return .error "no reader"
      | .ok (reader :: _) =>
          match ← perform (ReaderOp.connect reader) with
          | .error e => return .error ("connect (card inserted?): " ++ e)
          | .ok () => return .ok connect

end Keycard

namespace KeycardCapture

open Apdu Keycard KeycardAttest

def parseHex32 (field value : String) : Except String (Bytes 32) :=
  match hexDecode (trim0x value) with
  | .error _ => .error (field ++ " must be 64 hex chars")
  | .ok bytes =>
      if h : bytes.length = 32 then .ok ⟨bytes, h⟩
      else .error (field ++ " must be 64 hex chars")

section Produce

variable [Crypto] [KeycardCrypto]

/-- The attestation is checked against the production CA before it is handed out. -/
def checkCapture (challenge : Bytes 32) (tlv : List UInt8) : Except String ProduceReply := do
  let att ← (parseAttestation tlv).mapError fun e => "parse attestation: " ++ e.message
  let _nullifier ← (verifyAttestation att [statusProductionCa] challenge).mapError
    fun e => "attestation not verified: " ++ e.message
  return ⟨hexEncode tlv⟩

/-- The part of `produce` once the card is connected. -/
def capture (eph : KeycardCrypto.SecretKey) (challenge : Bytes 32) : Client ProduceReply := do
  Keycard.select eph
  let card ← Method.get
  if !card.initialized then
    Method.fail "card is not initialized"
  let tlv ← identify challenge.toList
  Method.ofExcept (checkCapture challenge tlv)

/-- `KeycardVector::produce`, with the random key that the selection draws. -/
def produce (eph : KeycardCrypto.SecretKey) (req : ProduceRequest) :
    Reading (Ending (Except String ProduceReply)) :=
  match parseHex32 "id_commitment_hex" req.idCommitmentHex with
  | .error e => return .returns (.error e)
  | .ok idcBytes => do
      match ← connectReader with
      | .error e => return .returns (.error e)
      | .ok kc =>
          let c ← ((capture eph (boundChallenge idcBytes.toList)).run kc).relabel .transmit
          return c >>= fun result => .returns result.1

/-- `KeycardVector` on the side of the client, where its card has produced `result`. -/
def keycardVector (result : Except String ProduceReply) : AuthVector where
  authType := keycardAttestAuthType
  produce _ := result

variable [SerdeJson]

/-- `produce_auth`: `dispatch_produce` over the one vector, which drives the card. -/
def produceAuth (eph : KeycardCrypto.SecretKey) (argsJson : String) : Reading (Ending String) :=
  match fromText "ProduceRequest" ProduceRequest.names ProduceRequest.read argsJson with
  | .error e => return .returns (reply (.error ("produce_auth args: " ++ e)))
  | .ok req =>
      if keycardAttestAuthType = req.authType then do
        let c ← produce eph req
        return c >>= fun result => .returns (reply (result.map ProduceReply.entries))
      else
        return .returns
          (reply (.error ("unknown auth_type '" ++ req.authType ++ "' on this module")))

end Produce

section Status

variable [SerdeJson]

def cardStatusImpl : Reading (Except String String) := do
  match ← readerCardPresent with
  | .error e => return .error e
  | .ok present => return .ok (SerdeJson.toText (.object [("present", .bool present)]))

def cardStatus : Reading String := do
  match ← cardStatusImpl with
  | .ok text => return text
  | .error e =>
      return SerdeJson.toText (.object [("present", .bool false), ("error", .string e)])

end Status

section Captured

variable [KeycardCrypto] {card : Keycard}

/-- The command that asks for an attestation, over no channel. -/
def identifyCommand (challenge : Bytes 32) : Command :=
  Command.new claGp insIdentify 0 0 challenge.toList

theorem identify_closed {challenge : Bytes 32} (hclosed : card.sc.isOpen = false) :
    (identify challenge.toList).Ensures card fun trace c =>
      ∃ answer result, trace = [⟨sending (identifyCommand challenge), answer⟩] ∧
        c = .returns (result, card) ∧ ∀ tlv, result = .ok tlv → accepted trace 0 = some tlv := by
  have hopen : ¬ card.sc.isOpen = true := by
    rw [hclosed]
    exact Bool.false_ne_true
  rw [identify, sendSc, Method.bind_assoc, Method.ensures_get_bind, if_neg hopen,
    ensures_transmit_bind]
  constructor
  · intro e
    exact ⟨_, .error ("transmit: " ++ e), rfl, rfl, by simp⟩
  · intro raw
    by_cases hsw : (parseResponse raw).sw = swOk
    · rw [if_neg fun h => h hsw]
      refine Method.ensures_pure.mpr ⟨_, .ok (parseResponse raw).data, rfl, rfl, fun tlv htlv => ?_⟩
      rw [← Except.ok.inj htlv]
      exact accepted_answered hsw
    · rw [if_pos hsw]
      exact Method.ensures_fail_bind.mpr ⟨_, .error _, rfl, rfl, by simp⟩

variable [Crypto]

omit [KeycardCrypto] [Crypto] in
theorem accepted_head (exchange : Exchange) (trace : List Exchange) :
    accepted (exchange :: trace) 0 = accepted [exchange] 0 := by
  obtain ⟨sent, answer⟩ := exchange
  cases answer with
  | error e => rfl
  | ok raw => rfl

/-- What a capture sends, when it comes to an end, and what it hands out. -/
structure Captures (challenge : Bytes 32) (trace : List Exchange)
    (c : Ending (Except String ProduceReply × Keycard)) : Prop where
  sent : trace.map Sigma.fst <+: [sending selectCommand, sending (identifyCommand challenge)]
  returns : c.Returns ↔ ∀ data, accepted trace 0 = some data → ReadsPub data
  handed : ∀ r card', c = .returns (.ok r, card') → ∃ data tlv,
    accepted trace 0 = some data ∧ DescribesCard data ∧ accepted trace 1 = some tlv ∧
      checkCapture challenge tlv = .ok r

/-- A capture that ends with the selection. -/
theorem captures_select {eph : KeycardCrypto.SecretKey} {challenge : Bytes 32}
    {trace : List Exchange} {c : Ending (Except String Unit × Keycard)}
    {c' : Ending (Except String ProduceReply × Keycard)} (h : Acts (.select eph) card trace c)
    (hreturns : c'.Returns ↔ c.Returns) (hfails : ∀ r card', c' ≠ .returns (.ok r, card')) :
    Captures challenge trace c' := by
  obtain ⟨answer, rfl⟩ := h.sent
  exact ⟨⟨_, rfl⟩, hreturns.trans h.comes.returns_iff, fun r card' hc => absurd hc (hfails r card')⟩

theorem capture_captures (eph : KeycardCrypto.SecretKey) (challenge : Bytes 32) :
    (capture eph challenge).Ensures card (Captures challenge) := by
  rw [capture, Method.ensures_bind]
  refine (select_acts eph).mono fun trace c hacts => ?_
  cases c with
  | panics => exact (Method.before_ret rfl).mpr (captures_select hacts
      (iff_of_false Ending.not_returns_panics Ending.not_returns_panics) nofun)
  | diverges => exact (Method.before_ret rfl).mpr (captures_select hacts
      (iff_of_false Ending.not_returns_diverges Ending.not_returns_diverges) nofun)
  | returns result =>
      obtain ⟨result, card'⟩ := result
      cases result with
      | error e =>
          refine Method.before_error.mpr (captures_select hacts ?_ nofun)
          exact iff_of_true (Ending.returns_returns _) (Ending.returns_returns _)
      | ok value =>
          have hsucceeds : Succeeds (.select eph) card trace := hacts.comes.ok_iff.mp rfl
          have hclosed : card'.sc.isOpen = false := hacts.comes.kept.1.1 hsucceeds
          have hreads : ∀ data, accepted trace 0 = some data → ReadsPub data :=
            hacts.comes.returns_iff.mp (Ending.returns_returns _)
          obtain ⟨answer, rfl⟩ := hacts.sent
          obtain ⟨data, hdata, hdescribes⟩ := hsucceeds
          rw [Method.before_ok, Method.ensures_get_bind]
          by_cases hinitialized : card'.initialized = true
          · simp only [hinitialized, Bool.not_true, Bool.false_eq_true, ↓reduceIte]
            rw [Method.ensures_bind]
            refine (identify_closed hclosed).mono fun more c' => ?_
            rintro ⟨answer', result, rfl, rfl, htlv⟩
            have hfirst := accepted_head ⟨sending selectCommand, answer⟩
              [⟨sending (identifyCommand challenge), answer'⟩]
            rw [← hfirst] at hdata hreads
            cases result with
            | error e =>
                refine Method.before_error.mpr ⟨List.prefix_rfl, ?_, nofun⟩
                exact iff_of_true (Ending.returns_returns _) hreads
            | ok tlv =>
                rw [Method.before_ok, Method.ensures_ofExcept]
                refine ⟨List.prefix_rfl, iff_of_true (Ending.returns_returns _) hreads, ?_⟩
                intro r card'' hc
                simp only [Ending.returns.injEq, Prod.mk.injEq] at hc
                exact ⟨data, tlv, hdata, hdescribes, (accepted_succ _ _ 0).trans (htlv tlv rfl), hc.1⟩
          · simp only [Bool.not_eq_true] at hinitialized
            simp only [hinitialized, Bool.not_false, ↓reduceIte]
            refine Method.ensures_fail_bind.mpr ⟨⟨_, rfl⟩, ?_, nofun⟩
            exact iff_of_true (Ending.returns_returns _) hreads

end Captured

theorem sending_select_ne (challenge : Bytes 32) :
    sending selectCommand ≠ sending (identifyCommand challenge) := by
  intro heq
  have hins : insSelect = insIdentify := congrArg (fun sent => sent.cmd.ins) heq
  exact absurd hins (by decide)

section Replies

variable {trace : List Exchange} {challenge : Bytes 32} {data : List UInt8}

/-- The exchanges of a capture, one by one. -/
theorem exchanges_cases
    (h : trace.map Sigma.fst <+: [sending selectCommand, sending (identifyCommand challenge)]) :
    trace = [] ∨ (∃ answer, trace = [⟨sending selectCommand, answer⟩]) ∨
      ∃ answer answer', trace =
        [⟨sending selectCommand, answer⟩, ⟨sending (identifyCommand challenge), answer'⟩] := by
  obtain ⟨more, hmore⟩ := h
  match trace with
  | [] => exact Or.inl rfl
  | [⟨sent, answer⟩] =>
      obtain rfl : sent = _ := (List.cons.inj hmore).1
      exact Or.inr (Or.inl ⟨answer, rfl⟩)
  | [⟨sent, answer⟩, ⟨sent', answer'⟩] =>
      obtain ⟨hfirst, hrest⟩ := List.cons.inj hmore
      obtain rfl : sent = _ := hfirst
      obtain rfl : sent' = _ := (List.cons.inj hrest).1
      exact Or.inr (Or.inr ⟨answer, answer', rfl⟩)
  | _ :: _ :: _ :: _ => cases (List.cons.inj (List.cons.inj hmore).2).2

theorem accepted_select
    (h : trace.map Sigma.fst <+: [sending selectCommand, sending (identifyCommand challenge)]) :
    accepted trace 0 = some data ↔
      ∃ raw, ⟨sending selectCommand, .ok raw⟩ ∈ trace ∧ parseResponse raw = ⟨data, swOk⟩ := by
  have hfirst : ∀ (answer : Except String (List UInt8)) (more : List Exchange),
      (∀ raw, ⟨sending selectCommand, .ok raw⟩ ∉ more) →
      (accepted (⟨sending selectCommand, answer⟩ :: more) 0 = some data ↔
        ∃ raw, ⟨sending selectCommand, .ok raw⟩ ∈
          (⟨sending selectCommand, answer⟩ :: more : List Exchange) ∧
          parseResponse raw = ⟨data, swOk⟩) := by
    intro answer more hmore
    simp only [List.mem_cons, hmore, or_false]
    cases answer with
    | error e =>
        refine iff_of_false nofun ?_
        rintro ⟨raw, heq, -⟩
        cases heq
    | ok raw =>
        rw [accepted_ok]
        constructor
        · exact fun hraw => ⟨raw, rfl, hraw⟩
        · rintro ⟨raw', heq, hraw⟩
          cases heq
          exact hraw
  rcases exchanges_cases h with rfl | ⟨answer, rfl⟩ | ⟨answer, answer', rfl⟩
  · simp [accepted]
  · exact hfirst answer [] fun raw => List.not_mem_nil
  · refine hfirst answer _ fun raw hmem => ?_
    exact sending_select_ne challenge (Sigma.mk.inj (List.mem_singleton.mp hmem)).1

theorem accepted_identify
    (h : trace.map Sigma.fst <+: [sending selectCommand, sending (identifyCommand challenge)])
    (hdata : accepted trace 1 = some data) :
    ∃ raw, ⟨sending (identifyCommand challenge), .ok raw⟩ ∈ trace ∧
      parseResponse raw = ⟨data, swOk⟩ := by
  rcases exchanges_cases h with rfl | ⟨answer, rfl⟩ | ⟨answer, answer', rfl⟩
  · cases hdata
  · rw [accepted_succ] at hdata
    cases hdata
  · rw [accepted_succ] at hdata
    cases answer' with
    | error e => cases hdata
    | ok raw => exact ⟨raw, by simp, accepted_ok.mp hdata⟩

end Replies

section Reading

variable {trace : List (Event ReaderAnswer)}

/-- The reader that is connected is the first of those that were listed. -/
def FirstListed (events : List (Event ReaderAnswer)) (reader : List UInt8) : Prop :=
  ∃ others, events[1]? = some ⟨.listReaders, .ok (reader :: others)⟩

/-- How far the connection to a card gets. -/
theorem connectReader_after {result : Except String Keycard}
    (h : connectReader.After trace (.ret result)) :
    ∃ reader, trace.map Sigma.fst <+: [.establish, .listReaders, .connect reader] ∧
      (ReaderOp.connect reader ∈ trace.map Sigma.fst → FirstListed trace reader) ∧
      ∀ kc, result = .ok kc → kc = Keycard.connect ∧
        trace.map Sigma.fst = [.establish, .listReaders, .connect reader] := by
  rw [connectReader] at h
  obtain ⟨answer, rest, rfl, hlist⟩ := op_after_ret h
  cases answer with
  | error e =>
      obtain ⟨rfl, heq⟩ := ret_after.mp hlist
      cases heq
      exact ⟨[], ⟨_, rfl⟩, by simp, nofun⟩
  | ok made =>
      obtain ⟨answer, rest, rfl, hfirst⟩ := op_after_ret hlist
      rcases answer with e | readers
      · obtain ⟨rfl, heq⟩ := ret_after.mp hfirst
        cases heq
        exact ⟨[], ⟨_, rfl⟩, by simp, nofun⟩
      · cases readers with
        | nil =>
            obtain ⟨rfl, heq⟩ := ret_after.mp hfirst
            cases heq
            exact ⟨[], ⟨_, rfl⟩, by simp, nofun⟩
        | cons reader others =>
            obtain ⟨answer, rest, rfl, hconnected⟩ := op_after_ret hfirst
            refine ⟨reader, ?_⟩
            cases answer with
            | error e =>
                obtain ⟨rfl, heq⟩ := ret_after.mp hconnected
                cases heq
                exact ⟨List.prefix_rfl, fun _ => ⟨others, rfl⟩, nofun⟩
            | ok made =>
                obtain ⟨rfl, heq⟩ := ret_after.mp hconnected
                cases heq
                exact ⟨List.prefix_rfl, fun _ => ⟨others, rfl⟩, fun kc hkc =>
                  ⟨(Except.ok.inj hkc).symm, rfl⟩⟩

end Reading

section Produced

variable [Crypto] [KeycardCrypto] {req : ProduceRequest} {trace : List (Event ReaderAnswer)}

/-- What is asked of the readers and the card for a commitment, in this order. -/
def captureOps (reader : List UInt8) (challenge : Bytes 32) : List ReaderOp :=
  [.establish, .listReaders, .connect reader, .transmit (sending selectCommand),
    .transmit (sending (identifyCommand challenge))]

/-- What a run of `produce` asks, when it comes to an end, and what it hands out. -/
structure Produces (req : ProduceRequest) (trace : List (Event ReaderAnswer))
    (c : Ending (Except String ProduceReply)) : Prop where
  asked : ∃ reader challenge, trace.map Sigma.fst <+: captureOps reader challenge ∧
    (ReaderOp.connect reader ∈ trace.map Sigma.fst → FirstListed trace reader) ∧
    ∀ idc, parseHex32 "id_commitment_hex" req.idCommitmentHex = .ok idc →
      challenge = boundChallenge idc.toList
  returns : c.Returns ↔ ∀ raw data, ⟨.transmit (sending selectCommand), .ok raw⟩ ∈ trace →
    parseResponse raw = ⟨data, swOk⟩ → ReadsPub data
  handed : ∀ r, c = .returns (.ok r) → ∃ idc raw tlv,
    parseHex32 "id_commitment_hex" req.idCommitmentHex = .ok idc ∧
    ⟨.transmit (sending (identifyCommand (boundChallenge idc.toList))), .ok raw⟩ ∈ trace ∧
    parseResponse raw = ⟨tlv, swOk⟩ ∧ checkCapture (boundChallenge idc.toList) tlv = .ok r

omit [KeycardCrypto] in
/-- A run that does not get to the card. -/
theorem produces_refused (reader : List UInt8) {e : String} (challenge : Bytes 32)
    (hasked : trace.map Sigma.fst <+: [.establish, .listReaders, .connect reader])
    (hlisted : ReaderOp.connect reader ∈ trace.map Sigma.fst → FirstListed trace reader)
    (hchallenge : ∀ idc, parseHex32 "id_commitment_hex" req.idCommitmentHex = .ok idc →
      challenge = boundChallenge idc.toList) :
    Produces req trace (.returns (.error e)) where
  asked := ⟨reader, challenge, hasked.trans ⟨_, rfl⟩, hlisted, hchallenge⟩
  returns := by
    refine iff_of_true (Ending.returns_returns _) fun raw data hmem => ?_
    have hop := hasked.subset (List.mem_map_of_mem (f := Sigma.fst) hmem)
    simp at hop
  handed := nofun

theorem produce_after (eph : KeycardCrypto.SecretKey) {c : Ending (Except String ProduceReply)}
    (h : (produce eph req).After trace (.ret c)) : Produces req trace c := by
  rw [produce] at h
  split at h
  · rename_i e hparse
    obtain ⟨rfl, heq⟩ := ret_after.mp h
    cases heq
    exact produces_refused [] (List.Vector.replicate 32 0) ⟨_, rfl⟩ (by simp) fun idc hidc => nomatch hparse.symm.trans hidc
  · rename_i idc hparse
    have hchallenge : ∀ idc', parseHex32 "id_commitment_hex" req.idCommitmentHex = .ok idc' →
        boundChallenge idc.toList = boundChallenge idc'.toList := by
      intro idc' hidc'
      rw [Except.ok.inj (hparse.symm.trans hidc')]
    obtain ⟨first, second, result, rfl, hconnect, hrest⟩ := bind_after_ret h
    obtain ⟨reader, hfirst, hlisted, hconnected⟩ := connectReader_after hconnect
    cases result with
    | error e =>
        obtain ⟨rfl, heq⟩ := ret_after.mp hrest
        cases heq
        rw [List.append_nil]
        exact produces_refused reader _ hfirst hlisted hchallenge
    | ok kc =>
        obtain ⟨rfl, hops⟩ := hconnected kc rfl
        obtain ⟨sent, last, ending, rfl, hcapture, hlast⟩ := bind_after_ret hrest
        obtain ⟨rfl, heq⟩ := ret_after.mp hlast
        obtain ⟨exchanges, rfl, hcaptured⟩ := relabel_after_ret hcapture
        have hcaptures := capture_captures eph (boundChallenge idc.toList) _ _ hcaptured
        cases heq
        have hcard : ∀ {sent : Sent} {raw : List UInt8},
            (⟨.transmit sent, .ok raw⟩ : Event ReaderAnswer) ∈
              first ++ (exchanges.map (relabelEvent ReaderOp.transmit) ++ []) ↔
                ⟨sent, .ok raw⟩ ∈ exchanges := by
          intro sent raw
          have hnone : (⟨.transmit sent, .ok raw⟩ : Event ReaderAnswer) ∉ first := by
            intro hmem
            have hop := List.mem_map_of_mem (f := Sigma.fst) hmem
            rw [hops] at hop
            simp at hop
          simp only [List.append_nil, List.mem_append, hnone, false_or, List.mem_map]
          constructor
          · rintro ⟨⟨sent', answer⟩, hmem, heq⟩
            cases heq
            exact hmem
          · exact fun hmem => ⟨_, hmem, rfl⟩
        refine ⟨⟨reader, boundChallenge idc.toList, ?_, ?_, hchallenge⟩, ?_, ?_⟩
        · obtain ⟨more, hmore⟩ := hcaptures.sent
          refine ⟨more.map ReaderOp.transmit, ?_⟩
          have hmap : (exchanges.map (relabelEvent ReaderOp.transmit)).map Sigma.fst =
              (exchanges.map Sigma.fst).map ReaderOp.transmit := by
            simp [relabelEvent, Function.comp_def]
          rw [List.append_nil, List.map_append, hops, hmap, List.append_assoc, ← List.map_append,
            hmore]
          rfl
        · intro hmem
          obtain ⟨others, hothers⟩ := hlisted (by rw [hops]; simp)
          have hlt := (List.getElem?_eq_some_iff.mp hothers).1
          exact ⟨others, (List.getElem?_append_left hlt).trans hothers⟩
        · rw [Ending.returns_bind_iff]
          constructor
          · rintro ⟨result, hending, -⟩ raw data hmem hraw
            have hreturns : ending.Returns := ⟨result, hending⟩
            exact hcaptures.returns.mp hreturns data
              ((accepted_select hcaptures.sent).mpr ⟨raw, hcard.mp hmem, hraw⟩)
          · intro hall
            obtain ⟨result, hending⟩ := hcaptures.returns.mpr fun data hdata => by
              obtain ⟨raw, hmem, hraw⟩ := (accepted_select hcaptures.sent).mp hdata
              exact hall raw data (hcard.mpr hmem) hraw
            exact ⟨result, hending, Ending.returns_returns _⟩
        · intro r hr
          cases ending with
          | returns result =>
              obtain ⟨result, card'⟩ := result
              have hresult : result = .ok r := Ending.returns.inj hr
              obtain ⟨data, tlv, -, -, htlv, hcheck⟩ := hcaptures.handed r card' (hresult ▸ rfl)
              obtain ⟨raw, hmem, hraw⟩ := accepted_identify hcaptures.sent htlv
              exact ⟨idc, raw, tlv, hparse, hcard.mpr hmem, hraw, hcheck⟩
          | panics => cases hr
          | diverges => cases hr

end Produced

section Checked

variable [Crypto]

/-- What the verifier says where the CA of an attestation is not trusted. -/
def untrustedCa : Verdict :=
  .reject "attestation verification failed: keycard backend error: attestation CA is not trusted"

/-- What stands behind a payload that was handed out: an attestation of the commitment by a
card with a certificate of the production CA. -/
theorem checkCapture_ok {challenge : Bytes 32} {tlv : List UInt8} {r : ProduceReply}
    (h : checkCapture challenge tlv = .ok r) : r.payloadHex = hexEncode tlv ∧
      ∃ att ca, parseAttestation tlv = .ok att ∧ recoverCa att = .ok ca ∧
        Crypto.toEncodedPoint ca true = statusProductionCa.toList ∧
        verifyAttestation att [statusProductionCa] challenge = .ok (nullifier att.identPub) := by
  rw [checkCapture] at h
  obtain ⟨att, hatt, h⟩ := bind_eq_ok h
  obtain ⟨nul, hnul, h⟩ := bind_eq_ok h
  cases h
  have hverified := mapError_eq_ok hnul
  have hverify := hverified
  rw [verifyAttestation] at hverify
  obtain ⟨ca, hca, hverify⟩ := bind_eq_ok hverify
  split at hverify
  · cases hverify
  · rename_i htrusted
    obtain ⟨ident, hident, hverify⟩ := bind_eq_ok hverify
    split at hverify
    · cases hverify
      simp only [List.any_cons, List.any_nil, Bool.or_false, Bool.not_eq_true, Bool.not_eq_false',
        decide_eq_true_eq] at htrusted
      exact ⟨rfl, att, ca, mapError_eq_ok hatt, hca, htrusted.symm, hverified⟩
    · cases hverify

/-- Of the lists of CAs only their members count. -/
theorem verifyAttestation_of_trusted {att : Attestation} {ca : Crypto.VerifyingKey}
    {challenge nul : Bytes 32} {t : Bytes 33} (hca : recoverCa att = .ok ca)
    (hpoint : Crypto.toEncodedPoint ca true = t.toList)
    (h : verifyAttestation att [t] challenge = .ok nul) (cas : List (Bytes 33)) :
    verifyAttestation att cas challenge =
      if t ∈ cas then .ok nul else .error (.backend "attestation CA is not trusted") := by
  have hany : ∀ ts : List (Bytes 33),
      (ts.any fun t' => t'.toList = Crypto.toEncodedPoint ca true) = decide (t ∈ ts) := by
    intro ts
    rw [Bool.eq_iff_iff, List.any_eq_true, decide_eq_true_eq]
    constructor
    · rintro ⟨t', ht', heq⟩
      rw [decide_eq_true_eq, hpoint] at heq
      rwa [← List.Vector.toList_injective heq]
    · exact fun ht => ⟨t, ht, decide_eq_true hpoint.symm⟩
  rw [verifyAttestation, hca] at h ⊢
  simp only [bind, Except.bind, hany, List.mem_singleton, decide_true, Bool.not_true,
    Bool.false_eq_true, ↓reduceIte] at h ⊢
  by_cases ht : t ∈ cas
  · simpa only [ht, decide_true, Bool.not_true, Bool.false_eq_true, ↓reduceIte] using h
  · simp only [ht, decide_false, Bool.not_false, ↓reduceIte]
    rfl

/-- What the verifier says of a payload that was captured for the same commitment. -/
theorem verify_captured {idc : Bytes 32} {tlv : List UInt8} {r : ProduceReply}
    (h : checkCapture (boundChallenge idc.toList) tlv = .ok r) :
    ∃ att, parseAttestation tlv = .ok att ∧ ∀ q cas,
      hexDecode (trim0x q.payloadHex) = .ok tlv →
      hexDecode (trim0x q.idCommitmentHex) = .ok idc.toList →
      KeycardAuth.parseTrustedCas q.config = .ok cas → cas ≠ [] →
      KeycardAuth.verify q = .ok (if statusProductionCa ∈ cas then
        .accept (some (hexEncode (nullifier att.identPub).toList))
        else untrustedCa) := by
  obtain ⟨-, att, ca, hparsed, hca, hpoint, hverified⟩ := checkCapture_ok h
  refine ⟨att, hparsed, fun q cas hpayload hcommitment hcas hne => ?_⟩
  have hlisted : cas.isEmpty = false := by simpa using hne
  have hcheck := verifyAttestation_of_trusted hca hpoint hverified cas
  simp only [KeycardAuth.verify, verifyWith, hcas, hlisted, hpayload, hcommitment,
    KeycardAuth.checkAttestation, hparsed, hcheck, Bool.false_eq_true, ↓reduceIte]
  by_cases htrusted : statusProductionCa ∈ cas
  · simp only [htrusted, ↓reduceIte]
  · simp only [htrusted, ↓reduceIte]
    rfl

end Checked

instance (e : ReaderOp) : Nonempty (ReaderAnswer e) := by
  cases e with
  | getStatusChange reader => exact ⟨.timeout⟩
  | _ => exact ⟨.error ""⟩

/-- Before a reader is connected the readers are listed. -/
theorem listed_of_connected {trace : List (Event ReaderAnswer)} {reader : List UInt8}
    {challenge : Bytes 32} (h : trace.map Sigma.fst <+: captureOps reader challenge)
    (hmem : ReaderOp.connect reader ∈ trace.map Sigma.fst) : 1 < trace.length := by
  obtain ⟨rest, hrest⟩ := h
  match trace with
  | [] => cases hmem
  | [event] =>
      have hevent : event.1 = ReaderOp.establish := (List.cons.inj hrest).1
      simp [hevent] at hmem
  | _ :: _ :: _ => simp

section Sample

/-- The scheme of a world with one card, which the production CA has certified. -/
@[reducible] def oneCard : Crypto where
  Signature := Unit
  VerifyingKey := Unit
  RecoveryId := Unit
  sha256 _ := List.Vector.replicate 32 0
  keccak256 _ := List.Vector.replicate 32 0
  fromDer _ := .ok ()
  fromSlice _ := .ok ()
  normalizeS _ := none
  fromByte _ := some ()
  recoverFromPrehash _ _ _ := .ok ()
  fromSec1Bytes _ := .ok ()
  verifyPrehash _ _ _ := true
  toEncodedPoint _ _ := statusProductionCa.toList

/-- Its attestation: a certificate of 98 bytes, and an empty signature. -/
def cardTlv : List UInt8 := [0xA0, 0x66, 0x8A, 0x62] ++ List.replicate 98 0 ++ [0x30, 0x00]

theorem parseAttestation_cardTlv : letI := oneCard
    parseAttestation cardTlv =
      .ok ⟨List.Vector.replicate 33 0, List.Vector.replicate 65 0, ()⟩ := by
  have htemplate : KeycardAttest.findTag cardTlv tagSignatureTemplate =
      .ok (cardTlv.drop 2, cardTlv) := by decide +kernel
  have hcert : KeycardAttest.findTag (cardTlv.drop 2) tagCertificate =
      .ok (List.replicate 98 0, (cardTlv.drop 2).take 100) := by decide +kernel
  have hder : KeycardAttest.findTag (cardTlv.drop 2) tagDerSequence =
      .ok ([], [0x30, 0x00]) := by decide +kernel
  exact @Mint.parseAttestation_eq oneCard _ _ _ _ _ _ _ _ _ htemplate hcert rfl hder

theorem checkCapture_cardTlv (challenge : Bytes 32) : letI := oneCard
    checkCapture challenge cardTlv = .ok ⟨hexEncode cardTlv⟩ := by
  let _ := oneCard
  rw [checkCapture, parseAttestation_cardTlv]
  rfl

/-- The card tells its key. -/
def selectReply : List UInt8 := [0xA4, 0x06, 0x8F, 0x01, 0x01, 0x80, 0x01, 0x04, 0x90, 0x00]

def cardRequest : ProduceRequest :=
  ⟨keycardAttestAuthType, hexEncode (List.replicate 32 0xAB), none⟩

def cardTrace (challenge : Bytes 32) : List (Event ReaderAnswer) :=
  [⟨.establish, .ok ()⟩, ⟨.listReaders, .ok [[0x30]]⟩, ⟨.connect [0x30], .ok ()⟩,
    ⟨.transmit (sending selectCommand), .ok selectReply⟩,
    ⟨.transmit (sending (identifyCommand challenge)), .ok (cardTlv ++ [0x90, 0x00])⟩]

theorem produce_cardRequest : letI := oneCard; letI := sampleCrypto
    (produce () cardRequest).After (cardTrace (List.Vector.replicate 32 0))
      (.ret (.returns (.ok ⟨hexEncode cardTlv⟩))) := by
  let _ := oneCard
  let _ := sampleCrypto
  have hparse : parseHex32 "id_commitment_hex" cardRequest.idCommitmentHex =
      .ok (List.Vector.replicate 32 0xAB) := by decide +kernel
  rw [produce, hparse]
  refine ⟨.ok (), rfl, .ok [[0x30]], rfl, .ok (), rfl, .ok selectReply, rfl,
    .ok (cardTlv ++ [0x90, 0x00]), rfl, ?_⟩
  rw [after_nil]
  have hcheck := checkCapture_cardTlv (List.Vector.replicate 32 0)
  exact congrArg (fun result => Program.ret (Ending.returns result)) hcheck.symm

end Sample

section Main

variable [Crypto] [KeycardCrypto] {req : ProduceRequest} {trace : List (Event ReaderAnswer)}

/-- Whatever the readers and the card answer, a capture asks for no more than this, in this
order: the card of the first reader is selected and asked to attest to the commitment, with
nothing encrypted and no secret sent.  And only the reply to the selection can keep it from
coming to an end. -/
theorem produce_asks (eph : KeycardCrypto.SecretKey)
    {q : Reading (Ending (Except String ProduceReply))}
    (h : (produce eph req).After trace q) :
    (∃ reader challenge, trace.map Sigma.fst <+: captureOps reader challenge ∧
      (ReaderOp.connect reader ∈ trace.map Sigma.fst → FirstListed trace reader) ∧
      ∀ idc, parseHex32 "id_commitment_hex" req.idCommitmentHex = .ok idc →
        challenge = boundChallenge idc.toList) ∧
    ∀ c, q = .ret c → (c.Returns ↔
      ∀ raw data, ⟨.transmit (sending selectCommand), .ok raw⟩ ∈ trace →
        parseResponse raw = ⟨data, swOk⟩ → ReadsPub data) := by
  constructor
  · obtain ⟨more, c, hmore⟩ := exists_after_ret q
    obtain ⟨reader, challenge, hasked, hlisted, hchallenge⟩ :=
      (produce_after eph (after_append h hmore)).asked
    rw [List.map_append] at hasked
    have hprefix : trace.map Sigma.fst <+: captureOps reader challenge :=
      (List.prefix_append _ _).trans hasked
    have hfirst : ReaderOp.connect reader ∈ trace.map Sigma.fst → FirstListed trace reader := by
      intro hmem
      obtain ⟨others, hothers⟩ := hlisted (by
        rw [List.map_append]
        exact List.mem_append_left _ hmem)
      have hlong := listed_of_connected hprefix hmem
      exact ⟨others, (List.getElem?_append_left hlong).symm.trans hothers⟩
    exact ⟨reader, challenge, hprefix, hfirst, hchallenge⟩
  · rintro c rfl
    exact (produce_after eph h).returns

end Main

theorem produce_asks_cardRequest : letI := oneCard; letI := sampleCrypto
    (∃ reader challenge,
      (cardTrace (List.Vector.replicate 32 0)).map Sigma.fst <+: captureOps reader challenge ∧
      (ReaderOp.connect reader ∈ (cardTrace (List.Vector.replicate 32 0)).map Sigma.fst →
        FirstListed (cardTrace (List.Vector.replicate 32 0)) reader) ∧
      ∀ idc, parseHex32 "id_commitment_hex" cardRequest.idCommitmentHex = .ok idc →
        challenge = boundChallenge idc.toList) ∧
    ∀ c, Program.ret (.returns (.ok ⟨hexEncode cardTlv⟩)) =
        (.ret c : Reading (Ending (Except String ProduceReply))) → (c.Returns ↔
      ∀ raw data, ⟨.transmit (sending selectCommand), .ok raw⟩ ∈
          cardTrace (List.Vector.replicate 32 0) →
        parseResponse raw = ⟨data, swOk⟩ → ReadsPub data) :=
  @produce_asks oneCard sampleCrypto cardRequest (cardTrace (List.Vector.replicate 32 0)) () _
    produce_cardRequest

section Main

variable [Crypto] [KeycardCrypto] {req : ProduceRequest} {trace : List (Event ReaderAnswer)}

/-- A payload that was captured for a commitment is accepted for this commitment by the
verifier, with the nullifier of the card, just where the production CA is trusted. -/
theorem captured_verifies (eph : KeycardCrypto.SecretKey) {r : ProduceReply}
    (h : (produce eph req).After trace (.ret (.returns (.ok r)))) :
    ∃ idc tlv att, parseHex32 "id_commitment_hex" req.idCommitmentHex = .ok idc ∧
      hexDecode r.payloadHex = .ok tlv ∧ parseAttestation tlv = .ok att ∧
      ∀ q cas, q.payloadHex = r.payloadHex →
        hexDecode (trim0x q.idCommitmentHex) = .ok idc.toList →
        KeycardAuth.parseTrustedCas q.config = .ok cas → cas ≠ [] →
        KeycardAuth.verify q = .ok (if statusProductionCa ∈ cas then
          .accept (some (hexEncode (nullifier att.identPub).toList))
          else untrustedCa) := by
  obtain ⟨idc, raw, tlv, hparse, -, -, hcheck⟩ := (produce_after eph h).handed r rfl
  obtain ⟨att, hparsed, hverify⟩ := verify_captured hcheck
  have hpayload : r.payloadHex = hexEncode tlv := (checkCapture_ok hcheck).1
  refine ⟨idc, tlv, att, hparse, by rw [hpayload, hexDecode_hexEncode], hparsed, ?_⟩
  intro q cas hsame hcommitment hcas hne
  have hdecode : hexDecode (trim0x q.payloadHex) = .ok tlv := by
    rw [hsame, hpayload, trim0x_hexEncode, hexDecode_hexEncode]
  exact hverify q cas hdecode hcommitment hcas hne

end Main

theorem captured_verifies_cardRequest : letI := oneCard
    ∃ idc tlv att, parseHex32 "id_commitment_hex" cardRequest.idCommitmentHex = .ok idc ∧
      hexDecode (hexEncode cardTlv) = .ok tlv ∧ parseAttestation tlv = .ok att ∧
      ∀ q cas, q.payloadHex = hexEncode cardTlv →
        hexDecode (trim0x q.idCommitmentHex) = .ok idc.toList →
        KeycardAuth.parseTrustedCas q.config = .ok cas → cas ≠ [] →
        KeycardAuth.verify q = .ok (if statusProductionCa ∈ cas then
          .accept (some (hexEncode (nullifier att.identPub).toList))
          else untrustedCa) :=
  @captured_verifies oneCard sampleCrypto cardRequest (cardTrace (List.Vector.replicate 32 0)) ()
    ⟨hexEncode cardTlv⟩ produce_cardRequest

section Dispatched

variable [Crypto] [KeycardCrypto] [SerdeJson] {trace : List (Event ReaderAnswer)}

omit [Crypto] [KeycardCrypto] [SerdeJson] in
/-- The vector of a card answers requests of its own type. -/
theorem answerOf_keycardVector (result : Except String ProduceReply) (req : ProduceRequest) :
    answerOf [keycardVector result] req.authType (AuthVector.produce · req) =
      if keycardAttestAuthType = req.authType then result
      else .error ("unknown auth_type '" ++ req.authType ++ "' on this module") :=
  answerOf_singleton _ _ _

omit [Crypto] [KeycardCrypto] in
/-- A text that reads as a request is dispatched to the vector of the card. -/
theorem dispatchProduce_read {argsJson : String} {req : ProduceRequest}
    (h : fromText "ProduceRequest" ProduceRequest.names ProduceRequest.read argsJson = .ok req)
    (result : Except String ProduceReply) :
    dispatchProduce argsJson [keycardVector result] = reply (Except.map ProduceReply.entries
      (if keycardAttestAuthType = req.authType then result
        else .error ("unknown auth_type '" ++ req.authType ++ "' on this module"))) := by
  rw [dispatchProduce, h, ← answerOf_keycardVector]
  exact congrArg reply (route_answerOf [keycardVector result] req.authType _ _)

/-- `produce_auth` replies what the dispatch replies with what the capture came to. -/
theorem produceAuth_after {eph : KeycardCrypto.SecretKey} {argsJson text : String}
    (h : (produceAuth eph argsJson).After trace (.ret (.returns text))) :
    ∃ result, text = dispatchProduce argsJson [keycardVector result] ∧ ∀ req,
      fromText "ProduceRequest" ProduceRequest.names ProduceRequest.read argsJson = .ok req →
      req.authType = keycardAttestAuthType →
      (produce eph req).After trace (.ret (.returns result)) := by
  rw [produceAuth] at h
  split at h
  · rename_i e hread
    obtain ⟨-, heq⟩ := ret_after.mp h
    cases heq
    refine ⟨.error "", ?_, fun req hreq => nomatch hread.symm.trans hreq⟩
    rw [dispatchProduce, hread]
    rfl
  · rename_i req hread
    split at h
    · rename_i htype
      obtain ⟨first, last, c, rfl, hproduce, hlast⟩ := bind_after_ret h
      obtain ⟨rfl, heq⟩ := ret_after.mp hlast
      cases c with
      | returns result =>
          cases heq
          refine ⟨result, ?_, ?_⟩
          · rw [dispatchProduce_read hread, if_pos htype]
          · intro req' hreq' _
            obtain rfl := Except.ok.inj (hread.symm.trans hreq')
            simpa only [List.append_nil] using hproduce
      | panics =>
          have hpanics : Ending.returns text = .panics := Program.ret.inj heq
          cases hpanics
      | diverges =>
          have hdiverges : Ending.returns text = .diverges := Program.ret.inj heq
          cases hdiverges
    · rename_i htype
      obtain ⟨-, heq⟩ := ret_after.mp h
      cases heq
      refine ⟨.error "", ?_, fun req' hreq' htype' => ?_⟩
      · rw [dispatchProduce_read hread, if_neg htype]
        rfl
      · obtain rfl := Except.ok.inj (hread.symm.trans hreq')
        exact absurd htype'.symm htype

end Dispatched

section Status

variable [SerdeJson] {trace : List (Event ReaderAnswer)}

/-- What the presence of a card is polled with: no session with the card is opened. -/
def Polls : ReaderOp → Prop
  | .establish | .listReaders | .getStatusChange _ => True
  | _ => False

omit [SerdeJson] in
theorem readerCardPresent_polls : readerCardPresent.Only Polls := by
  refine ⟨trivial, fun made => ?_⟩
  cases made with
  | error e => trivial
  | ok made =>
      refine ⟨trivial, fun listed => ?_⟩
      rcases listed with e | (_ | ⟨reader, others⟩)
      · trivial
      · trivial
      · refine ⟨trivial, fun change => ?_⟩
        cases change <;> trivial

omit [SerdeJson] in
theorem readerCardPresent_after {result : Except String Bool}
    (h : readerCardPresent.After trace (.ret result)) :
    result = .ok true ↔ ∃ reader, ⟨.getStatusChange reader, .state true⟩ ∈ trace := by
  rw [readerCardPresent] at h
  obtain ⟨made, rest, rfl, hlist⟩ := op_after_ret h
  cases made with
  | error e =>
      obtain ⟨rfl, heq⟩ := ret_after.mp hlist
      cases heq
      simp
  | ok made =>
      obtain ⟨listed, rest, rfl, hfirst⟩ := op_after_ret hlist
      rcases listed with e | (_ | ⟨reader, others⟩)
      · obtain ⟨rfl, heq⟩ := ret_after.mp hfirst
        cases heq
        simp
      · obtain ⟨rfl, heq⟩ := ret_after.mp hfirst
        cases heq
        simp
      · obtain ⟨change, rest, rfl, hchanged⟩ := op_after_ret hfirst
        cases change with
        | state present =>
            obtain ⟨rfl, heq⟩ := ret_after.mp hchanged
            cases heq
            cases present <;> simp
        | timeout =>
            obtain ⟨rfl, heq⟩ := ret_after.mp hchanged
            cases heq
            simp
        | failed e =>
            obtain ⟨rfl, heq⟩ := ret_after.mp hchanged
            cases heq
            simp

/-- `card_status` polls, and says whether the reader told of a card, whatever fails. -/
theorem cardStatus_says {q : Reading String} (h : cardStatus.After trace q) :
    (∀ event ∈ trace, Polls event.1) ∧ ∀ text, q = .ret text →
      ∃ v present, SerdeJson.fromStr text = .ok v ∧ v.get "present" = some (.bool present) ∧
        (present = true ↔ ∃ reader, ⟨.getStatusChange reader, .state true⟩ ∈ trace) := by
  have honly : cardStatus.Only Polls := by
    refine only_bind (only_bind readerCardPresent_polls fun result => ?_) fun result => ?_
    · cases result <;> trivial
    · cases result <;> trivial
  refine ⟨(only_after honly h).1, ?_⟩
  rintro text rfl
  obtain ⟨first, last, result, rfl, himpl, hlast⟩ := bind_after_ret h
  obtain ⟨polled, rest, present, rfl, hpolled, hrest⟩ := bind_after_ret himpl
  have hpresent := readerCardPresent_after hpolled
  cases present with
  | ok present =>
      obtain ⟨rfl, heq⟩ := ret_after.mp hrest
      cases heq
      obtain ⟨rfl, heq⟩ := ret_after.mp hlast
      cases heq
      refine ⟨.object [("present", .bool present)], present, (SerdeJson.toText_reads _).1 rfl,
        by simp [Value.object, Value.get_insert], ?_⟩
      simpa only [List.append_nil, Except.ok.injEq] using hpresent
  | error e =>
      obtain ⟨rfl, heq⟩ := ret_after.mp hrest
      cases heq
      obtain ⟨rfl, heq⟩ := ret_after.mp hlast
      cases heq
      have hplain : (Value.object [("present", .bool false), ("error", .string e)]).tree.plain
          127 = true := by
        apply Value.plain_object
        simp only [List.forall_mem_cons, List.not_mem_nil, false_implies, implies_true, and_true]
        exact ⟨rfl, rfl⟩
      refine ⟨.object [("present", .bool false), ("error", .string e)], false,
        (SerdeJson.toText_reads _).1 hplain, by simp [Value.object, Value.get_insert], ?_⟩
      simpa only [List.append_nil, reduceCtorEq, false_iff, Bool.false_eq_true] using hpresent

end Status

open Platform in
theorem cardStatus_says_present :
    (∀ event ∈ ([⟨.establish, .ok ()⟩, ⟨.listReaders, .ok [[0x30]]⟩,
        ⟨.getStatusChange [0x30], .state true⟩] : List (Event ReaderAnswer)), Polls event.1) ∧
      ∀ text, Program.ret (SerdeJson.toText (.object [("present", .bool true)])) =
          (.ret text : Reading String) →
        ∃ v present, SerdeJson.fromStr text = .ok v ∧
          v.get "present" = some (.bool present) ∧ (present = true ↔ ∃ reader,
            ⟨.getStatusChange reader, .state true⟩ ∈
              ([⟨.establish, .ok ()⟩, ⟨.listReaders, .ok [[0x30]]⟩,
                ⟨.getStatusChange [0x30], .state true⟩] : List (Event ReaderAnswer))) :=
  cardStatus_says ⟨.ok (), rfl, .ok [[0x30]], rfl, .state true, rfl, after_nil.mpr rfl⟩

end KeycardCapture

end RlnGifter
