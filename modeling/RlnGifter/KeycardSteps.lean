/-
What one operation of the client comes to.  A command over an open channel is read only
if its reply starts with its own MAC, and where the reply is too short, or no whole
blocks, it stops the program.
-/
import RlnGifter.SecureChannel

namespace RlnGifter

namespace Keycard

open Apdu

/-- The data of the `n`th reply, if its status is `9000`. -/
def accepted : List Exchange → Nat → Option (List UInt8)
  | [], _ => none
  | ⟨_, .error _⟩ :: _, 0 => none
  | ⟨_, .ok raw⟩ :: _, 0 =>
      if (parseResponse raw).sw = swOk then some (parseResponse raw).data else none
  | _ :: trace, n + 1 => accepted trace n

theorem accepted_ok {sent : Sent} {raw data : List UInt8} {trace : List Exchange} :
    accepted (⟨sent, .ok raw⟩ :: trace) 0 = some data ↔ parseResponse raw = ⟨data, swOk⟩ := by
  rw [accepted]
  constructor
  · intro h
    split at h
    · rename_i hsw
      rw [← Option.some.inj h, ← hsw]
    · cases h
  · intro h
    rw [h, if_pos rfl]

@[simp] theorem accepted_succ (exchange : Exchange) (trace : List Exchange) (n : Nat) :
    accepted (exchange :: trace) (n + 1) = accepted trace n := by
  obtain ⟨sent, answer⟩ := exchange
  cases answer with
  | error e => rfl
  | ok raw => rfl

theorem accepted_answered {sent : Sent} {raw : List UInt8} {trace : List Exchange}
    (h : (parseResponse raw).sw = swOk) :
    accepted (⟨sent, .ok raw⟩ :: trace) 0 = some (parseResponse raw).data := by
  rw [accepted, if_pos h]

theorem accepted_refused {sent : Sent} {raw : List UInt8} {trace : List Exchange}
    (h : (parseResponse raw).sw ≠ swOk) : accepted (⟨sent, .ok raw⟩ :: trace) 0 = none := by
  rw [accepted, if_neg h]

/-- A MAC and whole blocks. -/
def Sealed (data : List UInt8) : Prop := 16 ≤ data.length ∧ 16 ∣ data.length

theorem sealed_iff {data : List UInt8} :
    Sealed data ↔ ∃ (lead : Bytes 16) (rest : List UInt8),
      data = lead.toList ++ rest ∧ 16 ∣ rest.length := by
  constructor
  · rintro ⟨hlong, hblocks⟩
    have hlead : (data.take 16).length = 16 := by
      rw [List.length_take, Nat.min_eq_left hlong]
    refine ⟨⟨data.take 16, hlead⟩, data.drop 16, (List.take_append_drop 16 data).symm, ?_⟩
    rw [List.length_drop]
    exact Nat.dvd_sub hblocks (Nat.dvd_refl 16)
  · rintro ⟨lead, rest, rfl, hblocks⟩
    rw [Sealed, List.length_append, lead.toList_length]
    exact ⟨Nat.le_add_right 16 _, Nat.dvd_add (Nat.dvd_refl 16) hblocks⟩

section Channel

variable [KeycardCrypto]

/-- The exchange's reply starts with its own MAC, and decrypts to `resp` from the MAC of
the command. -/
def OpensTo (encKey macKey : Bytes 32) (exchange : Exchange) (resp : Response) : Prop :=
  ∃ (raw rest plain : List UInt8) (mac lead : Bytes 16), exchange.2 = .ok raw ∧
    parseResponse raw = ⟨lead.toList ++ rest, swOk⟩ ∧
    exchange.1.cmd.data.take 16 = mac.toList ∧
    decryptData rest encKey mac = .returns plain ∧
    calculateMac (replyMeta (rest.length + 16)) rest macKey = .returns lead ∧
    resp = parseResponse plain

/-- The response that the exchange of a command yields. -/
def Yields (sc : SecureChannel) (exchange : Exchange) (resp : Response) : Prop :=
  if sc.isOpen = true then OpensTo sc.encKey sc.macKey exchange resp
  else ∃ raw, exchange.2 = .ok raw ∧ resp = parseResponse raw

/-- A reply over an open channel can be taken apart. -/
def ChannelHolds (sc : SecureChannel) (trace : List Exchange) : Prop :=
  sc.isOpen = true → ∀ data, accepted trace 0 = some data → Sealed data

/-- What is sent for a command: over an open channel it is encrypted under its MAC. -/
def Wraps (sc : SecureChannel) (cmd : Command) (sent : Sent) : Prop :=
  if sc.isOpen = true then ∃ (mac : Bytes 16) (enc : List UInt8),
    encryptData cmd.data sc.encKey sc.iv = .returns enc ∧
    calculateMac (commandMeta cmd (enc.length + 16)) enc sc.macKey = .returns mac ∧
    sent = sending { cmd with data := mac.toList ++ enc }
  else sent = sending cmd

/-- What the exchange of a command comes to: of the client only the iv is changed. -/
abbrev Outcome (card : Keycard) (exchange : Exchange) :
    Ending (Except String Response × Keycard) → Prop :=
  Method.Comes (ChannelHolds card.sc [exchange]) (Yields card.sc exchange)
    fun card' => ∃ iv, card' = setIv iv card

variable {card : Keycard} {cmd : Command} {raw rest : List UInt8} {mac lead : Bytes 16}

/-- A reply with its MAC opens to what it decrypts to. -/
theorem opensTo_iff {sent : Sent} {encKey macKey : Bytes 32} {resp : Response}
    (hsent : sent.cmd.data.take 16 = mac.toList)
    (hraw : parseResponse raw = ⟨lead.toList ++ rest, swOk⟩) :
    OpensTo encKey macKey ⟨sent, .ok raw⟩ resp ↔
      ∃ plain, decryptData rest encKey mac = .returns plain ∧
        calculateMac (replyMeta (rest.length + 16)) rest macKey = .returns lead ∧
        resp = parseResponse plain := by
  constructor
  · rintro ⟨raw', rest', plain, mac', lead', hraw', hreply, hmac', hplain, hlead, rfl⟩
    obtain rfl := Except.ok.inj hraw'
    rw [hraw, Response.mk.injEq] at hreply
    have hlen : lead.toList.length = lead'.toList.length := by
      rw [lead.toList_length, lead'.toList_length]
    obtain ⟨hsame, rfl⟩ := List.append_inj hreply.1 hlen
    obtain rfl := List.Vector.toList_injective hsame
    obtain rfl := List.Vector.toList_injective (hsent.symm.trans hmac')
    exact ⟨plain, hplain, hlead, rfl⟩
  · rintro ⟨plain, hplain, hlead, hresp⟩
    exact ⟨raw, rest, plain, mac, lead, rfl, hraw, hsent, hplain, hlead, hresp⟩

/-- Only a reply that can be taken apart is opened. -/
theorem OpensTo.sealed {encKey macKey : Bytes 32} {sent : Sent} {resp : Response}
    (h : OpensTo encKey macKey ⟨sent, .ok raw⟩ resp) :
    ∃ data, parseResponse raw = ⟨data, swOk⟩ ∧ Sealed data := by
  obtain ⟨raw', rest, plain, mac, lead, hraw', hreply, -, hplain, -, -⟩ := h
  obtain rfl := Except.ok.inj hraw'
  exact ⟨_, hreply, sealed_iff.mpr ⟨lead, rest, rfl, decryptData_returns.mp ⟨plain, hplain⟩⟩⟩

/-- A reply that cannot be opened stops the program. -/
theorem openReply_cut (card : Keycard) {data : List UInt8} (hcut : ¬ Sealed data) :
    ∃ c, (openReply ⟨data, swOk⟩).run card = .ret c ∧ ¬ c.Returns := by
  rw [openReply, Method.run_get_bind, if_neg fun h => h rfl]
  by_cases hlong : 16 ≤ data.length
  · have hrmac : subslice data 0 16 = .returns (KeycardAttest.slice data 0 16) := by
      rw [subslice, if_pos ⟨Nat.zero_le _, hlong⟩]
    have hrdata : subslice data 16 data.length = .returns (data.drop 16) := by
      rw [subslice, if_pos ⟨hlong, Nat.le_refl _⟩, KeycardAttest.slice,
        List.take_of_length_le (by rw [List.length_drop])]
    simp only [hrmac, hrdata, Method.run_lift_bind]
    apply Method.run_lift_bind_stops
    rw [decryptData_returns, List.length_drop]
    intro hblocks
    exact hcut ⟨hlong, by omega⟩
  · apply Method.run_lift_bind_stops
    rw [subslice, if_neg fun h => hlong h.2]
    exact Ending.not_returns_panics

theorem yields_open {sc : SecureChannel} {exchange : Exchange} (hopen : sc.isOpen = true)
    (resp : Response) :
    Yields sc exchange resp ↔ OpensTo sc.encKey sc.macKey exchange resp := by
  rw [Yields, if_pos hopen]

/-- A reply that can be taken apart is read if its MAC is its own. -/
theorem openReply_sealed {sent : Sent} (hopen : card.sc.isOpen = true)
    (hsent : sent.cmd.data.take 16 = card.sc.iv.toList)
    (hraw : parseResponse raw = ⟨lead.toList ++ rest, swOk⟩) (hrest : 16 ∣ rest.length) :
    ∃ c, (openReply (parseResponse raw)).run card = .ret c ∧
      Outcome card ⟨sent, .ok raw⟩ c := by
  have hholds : ChannelHolds card.sc [⟨sent, .ok raw⟩] := by
    intro _ data hdata
    rw [accepted_ok, hraw, Response.mk.injEq] at hdata
    exact hdata.1 ▸ sealed_iff.mpr ⟨lead, rest, rfl, hrest⟩
  obtain ⟨plain, hplain⟩ : ∃ plain, decryptData rest card.sc.encKey card.sc.iv =
      .returns plain := decryptData_returns.mpr hrest
  obtain ⟨mac, hmac⟩ := calculateMac_eq card.sc.macKey (replyMeta (rest.length + 16)) rest
  rw [hraw, openReply_run hplain hmac]
  by_cases hsame : mac = lead
  · subst hsame
    rw [if_pos rfl]
    refine ⟨_, rfl, .yielded _ _ hholds (fun resp' => ?_) ⟨mac, rfl⟩⟩
    rw [yields_open hopen, opensTo_iff hsent hraw]
    constructor
    · rintro ⟨plain', hplain', -, rfl⟩
      rw [hplain, Ending.returns.injEq] at hplain'
      rw [hplain']
    · rintro rfl
      exact ⟨plain, hplain, hmac, rfl⟩
  · rw [if_neg hsame]
    refine ⟨_, rfl, .failed _ _ hholds (fun resp hresp => ?_) ⟨card.sc.iv, rfl⟩⟩
    rw [yields_open hopen, opensTo_iff hsent hraw] at hresp
    obtain ⟨plain', -, hlead, -⟩ := hresp
    rw [hmac, Ending.returns.injEq] at hlead
    exact hsame hlead

/-- How the reply over an open channel is taken, by a client whose iv is the MAC of the
command. -/
theorem openReply_outcome {sent : Sent} (hopen : card.sc.isOpen = true)
    (hsent : sent.cmd.data.take 16 = card.sc.iv.toList) (raw : List UInt8) :
    ∃ c, (openReply (parseResponse raw)).run card = .ret c ∧
      Outcome card ⟨sent, .ok raw⟩ c := by
  have hsealed_of : ∀ resp, Yields card.sc ⟨sent, .ok raw⟩ resp →
      ∃ data, parseResponse raw = ⟨data, swOk⟩ ∧ Sealed data := fun resp hresp =>
    ((yields_open hopen resp).mp hresp).sealed
  by_cases hsw : (parseResponse raw).sw = swOk
  · obtain ⟨data, hraw⟩ : ∃ data, parseResponse raw = ⟨data, swOk⟩ :=
      ⟨(parseResponse raw).data, by rw [← hsw]⟩
    by_cases hsealed : Sealed data
    · obtain ⟨lead, rest, rfl, hrest⟩ := sealed_iff.mp hsealed
      exact openReply_sealed hopen hsent hraw hrest
    · obtain ⟨c, hrun, hc⟩ := openReply_cut card hsealed
      refine ⟨c, hraw ▸ hrun, .stopped ?_ (fun resp hresp => ?_) hc⟩
      · intro hholds
        exact hsealed (hholds hopen data (accepted_ok.mpr hraw))
      · obtain ⟨data', hraw', hsealed'⟩ := hsealed_of resp hresp
        rw [hraw, Response.mk.injEq] at hraw'
        exact hsealed (hraw'.1 ▸ hsealed')
  · refine ⟨.returns (.error ("secure channel outer SW " ++ hexWord (parseResponse raw).sw),
      card), ?_, .failed _ _ ?_ (fun resp hresp => ?_) ⟨card.sc.iv, rfl⟩⟩
    · rw [openReply, Method.run_get_bind, if_pos hsw]
      rfl
    · intro _ data hdata
      rw [accepted_ok] at hdata
      exact absurd (congrArg Response.sw hdata) hsw
    · obtain ⟨data, hraw, -⟩ := hsealed_of resp hresp
      exact hsw (congrArg Response.sw hraw)

/-- An exchange that the reader fails in. -/
theorem outcome_error {sent : Sent} (e : String) (iv : Bytes 16) :
    Outcome card ⟨sent, .error e⟩ (.returns (.error ("transmit: " ++ e), setIv iv card)) := by
  refine .failed _ _ ?_ (fun resp hresp => ?_) ⟨iv, rfl⟩
  · intro _ data hdata
    cases hdata
  · rw [Yields] at hresp
    split at hresp
    · obtain ⟨raw, -, -, -, -, hraw, -⟩ := hresp
      cases hraw
    · obtain ⟨raw, hraw, -⟩ := hresp
      cases hraw

/-- Every command is sent as it should be, and its reply taken as it should be. -/
theorem sendSc_outcome : (sendSc cmd).Ensures card fun trace c =>
    ∃ exchange, trace = [exchange] ∧ Wraps card.sc cmd exchange.1 ∧
      Outcome card exchange c := by
  by_cases hopen : card.sc.isOpen = true
  · obtain ⟨enc, henc, -⟩ := encryptData_eq card.sc.encKey card.sc.iv cmd.data
    obtain ⟨mac, hmac⟩ := calculateMac_eq card.sc.macKey
      (commandMeta cmd (enc.length + 16)) enc
    obtain ⟨next, hrun, hok, herror⟩ := sendSc_run hopen henc hmac
    have hwraps : Wraps card.sc cmd (sending { cmd with data := mac.toList ++ enc }) := by
      rw [Wraps, if_pos hopen]
      exact ⟨mac, enc, henc, hmac, rfl⟩
    refine Method.ensures_of_op hrun fun answer => ?_
    cases answer with
    | error e => exact ⟨_, herror e, _, rfl, hwraps, outcome_error e mac⟩
    | ok raw =>
        have hsent : (sending { cmd with data := mac.toList ++ enc }).cmd.data.take 16 =
            (setIv mac card).sc.iv.toList := List.take_left' mac.toList_length
        have hopen' : (setIv mac card).sc.isOpen = true := hopen
        obtain ⟨c, hreply, hc⟩ := openReply_outcome hopen' hsent raw
        exact ⟨c, (hok raw).trans hreply, _, rfl, hwraps, hc.congr Iff.rfl (fun _ => Iff.rfl) fun
          | _, ⟨iv, hcard⟩ => ⟨iv, hcard⟩⟩
  · have hwraps : Wraps card.sc cmd (sending cmd) := by
      rw [Wraps, if_neg hopen]
    rw [sendSc, Method.ensures_get_bind, if_neg hopen, ensures_transmit]
    refine ⟨fun e => ⟨_, rfl, hwraps, outcome_error e card.sc.iv⟩, fun raw =>
      ⟨_, rfl, hwraps, .yielded _ _ (fun h => absurd h hopen) (fun resp' => ?_) ⟨card.sc.iv, rfl⟩⟩⟩
    rw [Yields, if_neg hopen]
    constructor
    · rintro ⟨raw', hraw', rfl⟩
      rw [Except.ok.inj hraw']
    · rintro rfl
      exact ⟨raw, rfl, rfl⟩

end Channel

end Keycard

end RlnGifter
