/-
The commands of a session as the card reads them.  The length of the data is sent as one
byte, and over an open channel it is also under the MAC; a longer PIN, path or challenge
is not refused.
-/
import RlnGifter.KeycardSessions
import RlnGifter.ShortApdu

namespace RlnGifter

namespace Keycard

open Apdu

/-- How much data a command may have.  Over an open channel it is padded to whole blocks,
behind the MAC. -/
def room (sc : SecureChannel) : Nat := if sc.isOpen = true then 223 else 255

theorem parses_sending_iff {cmd : Command} :
    parseShort (sending cmd).raw = some (sending cmd).cmd ↔ cmd.data.length ≤ 255 := by
  rw [sending, parseShort_eq_some, and_iff_right rfl]

theorem length_toBeBytes (indices : List UInt32) :
    (indices.flatMap toBeBytes).length = 4 * indices.length := by
  induction indices with
  | nil => rfl
  | cons n indices ih =>
      rw [List.flatMap_cons, List.length_append, ih, List.length_cons, Nat.mul_succ, Nat.add_comm]
      rfl

section Commands

variable [KeycardCrypto]

/-- The length byte under the MAC of a command is the one that is sent. -/
def CoversLength (macKey : Bytes 32) (sent : Sent) : Prop :=
  ∃ (lc : UInt8) (mac : Bytes 16) (enc : List UInt8), sent.raw[4]? = some lc ∧
    sent.cmd.data = mac.toList ++ enc ∧
    calculateMac (commandMeta sent.cmd lc.toNat) enc macKey = .returns mac

/-- The exchange of a step has its command under a MAC with that key. -/
def Step.Under (step : Step) (exchange : Exchange) (macKey : Bytes 32) : Prop :=
  match step.op with
  | .select _ | .pair _ _ => False
  | .openSecureChannel _ => ∃ first reply encKey iv, step.trace = [first, exchange] ∧
      accepted step.trace 0 = some reply ∧
      deriveSessionKeys step.before.sc.secret step.before.pairingKey reply =
        .returns (encKey, macKey, iv)
  | _ => exchange ∈ step.trace ∧ step.before.sc.isOpen = true ∧
      macKey = step.before.sc.macKey

/-- Every command of a step is read back from the bytes sent for it, and a MAC covers
the length byte among them. -/
def Step.WellFormed (step : Step) : Prop :=
  (∀ exchange ∈ step.trace, parseShort exchange.1.raw = some exchange.1.cmd) ∧
    ∀ exchange macKey, step.Under exchange macKey → CoversLength macKey exchange.1

/-- There is room for what the caller hands in. -/
def Step.Fits (step : Step) : Prop :=
  match step.op with
  | .verifyPin pin => (utf8 pin).length ≤ room step.before.sc
  | .exportKey path => ∀ indices, decodePath path = .ok indices →
      4 * indices.length ≤ room step.before.sc
  | .identify challenge => challenge.length ≤ room step.before.sc
  | _ => True

variable {sc : SecureChannel} {cmd : Command} {sent : Sent} {card : Keycard}
  {op : Operation} {trace : List Exchange}

theorem Wraps.parses_iff (h : Wraps sc cmd sent) :
    parseShort sent.raw = some sent.cmd ↔ cmd.data.length ≤ room sc := by
  rw [Wraps] at h
  split at h
  · rename_i hopen
    obtain ⟨mac, enc, henc, -, rfl⟩ := h
    obtain ⟨enc', henc', hlen⟩ := encryptData_eq sc.encKey sc.iv cmd.data
    rw [henc, Ending.returns.injEq] at henc'
    rw [parses_sending_iff, List.length_append, mac.toList_length, henc', room, if_pos hopen]
    omega
  · rename_i hclosed
    rw [h, parses_sending_iff, room, if_neg hclosed]

theorem Wraps.coversLength (h : Wraps sc cmd sent) (hopen : sc.isOpen = true) :
    CoversLength sc.macKey sent := by
  rw [Wraps, if_pos hopen] at h
  obtain ⟨mac, enc, -, hmac, rfl⟩ := h
  have hlen : (mac.toList ++ enc).length = enc.length + 16 := by
    rw [List.length_append, mac.toList_length, Nat.add_comm]
  have hne : mac.toList ++ enc ≠ [] := by
    intro hnil
    rw [hnil] at hlen
    cases hlen
  refine ⟨UInt8.ofNat (enc.length + 16), mac, enc, ?_, rfl, ?_⟩
  · rw [sending, serialize_data _ _ _ _ hne, hlen]
    rfl
  · rw [commandMeta, UInt8.ofNat_toNat]
    exact hmac

/-- A command of the caller's data is read back just if the data has room. -/
theorem Asks.parses_iff (h : Asks sc cmd trace) :
    (∀ exchange ∈ trace, parseShort exchange.1.raw = some exchange.1.cmd) ↔
      cmd.data.length ≤ room sc := by
  obtain ⟨exchange, rfl, hwraps⟩ := h
  rw [List.forall_mem_singleton, hwraps.parses_iff]

theorem Asks.coversLength (h : Asks sc cmd trace) (hopen : sc.isOpen = true) :
    ∀ exchange ∈ trace, CoversLength sc.macKey exchange.1 := by
  obtain ⟨exchange, rfl, hwraps⟩ := h
  rw [List.forall_mem_singleton]
  exact hwraps.coversLength hopen

/-- The MAC of a command always covers its length byte. -/
theorem SentBy.coversLength {c : Ending (Except String Unit × Keycard)}
    (h : SentBy op card trace) {exchange : Exchange} {macKey : Bytes 32}
    (hunder : Step.Under ⟨card, op, trace, c⟩ exchange macKey) :
    CoversLength macKey exchange.1 := by
  cases op with
  | select _ | pair _ _ => exact hunder.elim
  | openSecureChannel data =>
      obtain ⟨first, reply, encKey, iv, htrace, hreply, hkeys⟩ := hunder
      obtain ⟨answer, more, rfl, hmore⟩ := h
      obtain ⟨-, rfl⟩ := List.cons.inj htrace
      rcases hmore with hnil | ⟨reply', encKey', macKey', iv', hreply', hkeys', hasks⟩
      · cases hnil
      · rw [hreply, Option.some.injEq] at hreply'
        rw [← hreply', hkeys, Ending.returns.injEq] at hkeys'
        obtain ⟨rfl, rfl, rfl⟩ : encKey = encKey' ∧ macKey = macKey' ∧ iv = iv' := by
          simpa using hkeys'
        exact hasks.coversLength rfl exchange (List.mem_singleton_self exchange)
  | exportKey path =>
      obtain ⟨hmem, hopen, rfl⟩ := hunder
      rw [SentBy] at h
      split at h
      · rw [h] at hmem
        cases hmem
      · exact h.coversLength hopen exchange hmem
  | verifyPin _ | identify _ | unpair _ =>
      obtain ⟨hmem, hopen, rfl⟩ := hunder
      exact Asks.coversLength h hopen exchange hmem

/-- The commands of an operation are read back just if there is room for what the
caller hands in. -/
theorem SentBy.parses_iff {c : Ending (Except String Unit × Keycard)}
    (h : SentBy op card trace) (heph : card.sc.ephPub.length ≤ 255) :
    (∀ exchange ∈ trace, parseShort exchange.1.raw = some exchange.1.cmd) ↔
      Step.Fits ⟨card, op, trace, c⟩ := by
  cases op with
  | select eph =>
      obtain ⟨answer, rfl⟩ := h
      refine iff_of_true ?_ trivial
      rw [List.forall_mem_singleton, parses_sending_iff]
      decide
  | pair challenge pairingPass =>
      obtain ⟨answer, more, rfl, hmore⟩ := h
      refine iff_of_true ?_ trivial
      rw [List.forall_mem_cons, parses_sending_iff]
      refine ⟨?_, fun exchange hexchange => ?_⟩
      · rw [Command.new, challenge.toList_length]
        decide
      · obtain ⟨cryptogram, hsent⟩ := hmore exchange hexchange
        rw [hsent, parses_sending_iff, Command.new, cryptogram.toList_length]
        decide
  | openSecureChannel data =>
      obtain ⟨answer, more, rfl, hmore⟩ := h
      refine iff_of_true ?_ trivial
      rw [List.forall_mem_cons, parses_sending_iff]
      refine ⟨heph, ?_⟩
      rcases hmore with rfl | ⟨reply, encKey, macKey, iv, -, -, hasks⟩
      · exact List.forall_mem_nil _
      · rw [hasks.parses_iff, Command.new, data.toList_length, room, if_pos rfl]
        decide
  | verifyPin pin => exact Asks.parses_iff h
  | exportKey path =>
      rw [SentBy] at h
      rw [Step.Fits]
      split at h
      · rename_i e hpath
        rw [h]
        simp [hpath]
      · rename_i indices hpath
        rw [h.parses_iff, Command.new, length_toBeBytes]
        simp [hpath]
  | identify challenge => exact Asks.parses_iff h
  | unpair index => exact (Asks.parses_iff h).trans (iff_of_true (Nat.zero_le _) trivial)

/-- The key that a client of a session hands out is none, or a whole point. -/
theorem Session.length_ephPub {history : List Step} {status : Ending Keycard}
    (h : Session history status) :
    (∀ card, status = .returns card → card.sc.ephPub.length ≤ 65) ∧
      ∀ step ∈ history, step.before.sc.ephPub.length ≤ 65 := by
  induction h with
  | connect =>
      refine ⟨fun card hcard => ?_, List.forall_mem_nil _⟩
      rw [← Ending.returns.inj hcard]
      exact Nat.zero_le _
  | @step past card op trace c hpast hrun ih =>
      obtain ⟨hlast, hall⟩ := ih
      have hcard := hlast card rfl
      refine ⟨fun last hstatus => ?_, List.forall_mem_cons.mpr ⟨hcard, hall⟩⟩
      obtain ⟨⟨result, card'⟩, rfl, hcard'⟩ := Ending.bind_eq_returns.mp hstatus
      rw [← Ending.returns.inj hcard']
      have hacts : Acts op card trace (.returns (result, card')) :=
        (perform_acts op).of_run hrun
      rcases hacts.comes.kept.2 with hsame | hlong
      · exact hsame ▸ hcard
      · exact hlong.le

/-- In any session the commands of a step are well formed just if there is room for what
the caller hands in. -/
theorem session_wellFormed_iff {history : List Step} {status : Ending Keycard}
    (h : Session history status) : ∀ step ∈ history, step.WellFormed ↔ step.Fits := by
  intro step hstep
  have hsent := (h.acts step hstep).sent
  have heph := h.length_ephPub.2 step hstep
  rw [Step.WellFormed, and_iff_left fun exchange macKey => hsent.coversLength]
  exact hsent.parses_iff (heph.trans (by decide))

/-- A session of one challenge outside the channel. -/
theorem identify_session (challenge : List UInt8) :
    Session [⟨connect, .identify challenge,
      [⟨sending (Command.new claGp insIdentify 0 0 challenge), .ok [0x90, 0x00]⟩],
      .returns (.ok (), connect)⟩] (.returns connect) :=
  .step .connect (Program.op_after_cons.mpr ⟨.ok [0x90, 0x00], rfl, rfl⟩)

end Commands

/-- A challenge of 255 bytes is sent as it should be. -/
theorem session_wellFormed_iff_identify : letI := sampleCrypto
    Step.WellFormed ⟨connect, .identify (List.replicate 255 0),
      [⟨sending (Command.new claGp insIdentify 0 0 (List.replicate 255 0)), .ok [0x90, 0x00]⟩],
      .returns (.ok (), connect)⟩ :=
  (@session_wellFormed_iff sampleCrypto _ _ (@identify_session sampleCrypto _) _
    (List.mem_singleton_self _)).mpr (by
      change (List.replicate 255 (0 : UInt8)).length ≤ 255
      rw [List.length_replicate])

/-- A challenge of 256 bytes is sent behind a length of zero. -/
theorem long_challenge : letI := sampleCrypto
    Session [⟨connect, .identify (List.replicate 256 0),
      [⟨sending (Command.new claGp insIdentify 0 0 (List.replicate 256 0)),
        .ok [0x90, 0x00]⟩], .returns (.ok (), connect)⟩] (.returns connect) ∧
      parseShort (Command.new claGp insIdentify 0 0 (List.replicate 256 0)).serialize ≠
        some (Command.new claGp insIdentify 0 0 (List.replicate 256 0)) := by
  refine ⟨@identify_session sampleCrypto _, fun h => ?_⟩
  have hlen := (parseShort_eq_some.mp h).2
  rw [Command.new, List.length_replicate] at hlen
  omega

end Keycard

end RlnGifter
