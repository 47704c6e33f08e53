/-
Sessions with a card.  The client's operations follow one another from `connect` on, with
any replies; a session is over when an operation stops the program.
-/
import RlnGifter.KeycardOperations

namespace RlnGifter

namespace Keycard

open Apdu

theorem error_of_ne_ok {result : Except String Unit} (h : result ≠ .ok ()) :
    ∃ e, result = .error e := by
  cases result with
  | error e => exact ⟨e, rfl⟩
  | ok value => exact absurd rfl h

section Sessions

variable [KeycardCrypto]

/-- One operation of a session: the client before it, its exchanges and its end. -/
structure Step where
  before : Keycard
  op : Operation
  trace : List Exchange
  ending : Ending (Except String Unit × Keycard)

/-- The steps of a session, the last one first, and the client after them. -/
inductive Session : List Step → Ending Keycard → Prop where
  | connect : Session [] (.returns connect)
  | step {past : List Step} {card : Keycard} {op : Operation} {trace : List Exchange}
      {c : Ending (Except String Unit × Keycard)} (h : Session past (.returns card))
      (hrun : (op.perform.run card).After trace (.ret c)) :
      Session (⟨card, op, trace, c⟩ :: past) (c >>= fun result => .returns result.2)

theorem Session.acts {history : List Step} {status : Ending Keycard}
    (h : Session history status) :
    ∀ step ∈ history, Acts step.op step.before step.trace step.ending := by
  induction h with
  | connect =>
      intro step hstep
      cases hstep
  | @step past card op trace c hpast hrun ih =>
      intro step hstep
      rcases List.mem_cons.mp hstep with rfl | hstep
      · exact (perform_acts op).of_run hrun
      · exact ih step hstep

/-- The replies of a step are none that stop the program. -/
def Step.Harmless (step : Step) : Prop := Keycard.Harmless step.op step.before step.trace

/-- A session goes on just as long as the replies are harmless. -/
theorem session_returns_iff {history : List Step} {status : Ending Keycard}
    (h : Session history status) : status.Returns ↔ ∀ step ∈ history, step.Harmless := by
  induction h with
  | connect => exact iff_of_true (Ending.returns_returns _) (List.forall_mem_nil _)
  | @step past card op trace c hpast hrun ih =>
      have hacts : Acts op card trace c := (perform_acts op).of_run hrun
      have hall := ih.mp (Ending.returns_returns card)
      rw [List.forall_mem_cons, Ending.returns_bind_iff, and_iff_left hall]
      constructor
      · rintro ⟨result, hc, -⟩
        exact hacts.comes.returns_iff.mp ⟨result, hc⟩
      · intro hharmless
        obtain ⟨result, hc⟩ := hacts.comes.returns_iff.mpr hharmless
        exact ⟨result, hc, Ending.returns_returns _⟩

/-- A session of one command outside the channel. -/
theorem unpair_session (index : UInt8) :
    Session [⟨connect, .unpair index, [⟨sending (Command.new claGp insUnpair index 0 []),
      .ok [0x90, 0x00]⟩], .returns (.ok (), connect)⟩] (.returns connect) :=
  .step .connect (Program.op_after_cons.mpr ⟨.ok [0x90, 0x00], rfl, rfl⟩)

end Sessions

/-- A plain confirmation is harmless. -/
theorem session_returns_iff_unpair : letI := sampleCrypto
    Step.Harmless ⟨connect, .unpair 0, [⟨sending (Command.new claGp insUnpair 0 0 []),
      .ok [0x90, 0x00]⟩], .returns (.ok (), connect)⟩ :=
  (@session_returns_iff sampleCrypto _ _ (@unpair_session sampleCrypto 0)).mp
    (Ending.returns_returns connect) _ (List.mem_singleton_self _)

/-- A reply to SELECT of one byte stops the program. -/
theorem session_stops : letI := sampleCrypto
    Session [⟨connect, .select (), [⟨sending selectCommand, .ok [0x80, 0x90, 0x00]⟩],
      .panics⟩] .panics ∧ ¬ (Ending.panics : Ending Keycard).Returns :=
  letI := sampleCrypto
  ⟨.step .connect (Program.op_after_cons.mpr ⟨.ok [0x80, 0x90, 0x00], rfl, rfl⟩),
    Ending.not_returns_panics⟩

section Guard

variable [KeycardCrypto]

/-- The step is a SELECT that the card accepted. -/
def Step.Reselected (step : Step) : Prop :=
  (∃ eph, step.op = .select eph) ∧ ∃ data, accepted step.trace 0 = some data

/-- The step opened the channel. -/
def Step.Opened (step : Step) : Prop :=
  (∃ data, step.op = .openSecureChannel data) ∧ ∃ card, step.ending = .returns (.ok (), card)

/-- Some step opened the channel, and no later one selected the card again. -/
def OpenedSince (history : List Step) : Prop :=
  ∃ recent step past, history = recent ++ step :: past ∧ step.Opened ∧
    ∀ later ∈ recent, ¬ later.Reselected

/-- After the last step the channel counts as open only if it was opened since the card
was selected; nor does it after an opening that failed, or a SELECT that failed although
the card accepted it. -/
def Guarded : List Step → Prop
  | [] => True
  | step :: past => ∀ result card, step.ending = .returns (result, card) →
      (card.sc.isOpen = true → OpenedSince (step :: past)) ∧
      ∀ e, result = .error e → (∃ data, step.op = .openSecureChannel data) ∨ step.Reselected →
        card.sc.isOpen = false

/-- A SELECT of a card that does not tell its key comes over a closed channel only, as
does an opening that the card refuses; and where it does not, the card authenticates
itself over the new channel. -/
def Step.Careful (step : Step) : Prop :=
  match step.op with
  | .select _ => ∀ data, accepted step.trace 0 = some data → ¬ DescribesCard data →
      step.before.sc.isOpen = false
  | .openSecureChannel _ =>
      (accepted step.trace 0 = none → step.before.sc.isOpen = false) ∧
        ∀ data, accepted step.trace 0 = some data → Authenticates step.before data step.trace
  | _ => True

theorem OpenedSince.cons {step : Step} {past : List Step} (h : OpenedSince past)
    (hstep : ¬ step.Reselected) : OpenedSince (step :: past) := by
  obtain ⟨recent, opening, older, rfl, hopening, hrecent⟩ := h
  exact ⟨step :: recent, opening, older, rfl, hopening, List.forall_mem_cons.mpr ⟨hstep, hrecent⟩⟩

variable {card card' : Keycard} {op : Operation} {trace : List Exchange}
  {result : Except String Unit} {past : List Step}

theorem guarded_cons : Guarded (⟨card, op, trace, .returns (result, card')⟩ :: past) ↔
    (card'.sc.isOpen = true →
      OpenedSince (⟨card, op, trace, .returns (result, card')⟩ :: past)) ∧
    ∀ e, result = .error e → (∃ data, op = .openSecureChannel data) ∨
      Step.Reselected ⟨card, op, trace, .returns (result, card')⟩ → card'.sc.isOpen = false := by
  constructor
  · intro h
    exact h result card' rfl
  · intro h result' last hlast
    simp only [Ending.returns.injEq, Prod.mk.injEq] at hlast
    obtain ⟨rfl, rfl⟩ := hlast
    exact h

theorem guarded_of_closed (h : card'.sc.isOpen = false) :
    Guarded (⟨card, op, trace, .returns (result, card')⟩ :: past) :=
  guarded_cons.mpr ⟨fun hopen => absurd (h.symm.trans hopen) Bool.false_ne_true, fun _ _ _ => h⟩

/-- A step that leaves the channel as it is and is no SELECT or opening is guarded. -/
theorem guarded_of_same (hpast : card.sc.isOpen = true → OpenedSince past)
    (hselect : ∀ eph, op ≠ .select eph) (hopening : ∀ data, op ≠ .openSecureChannel data)
    (hsame : card'.sc.isOpen = card.sc.isOpen) :
    Guarded (⟨card, op, trace, .returns (result, card')⟩ :: past) := by
  refine guarded_cons.mpr ⟨fun hopen => (hpast (hsame ▸ hopen)).cons ?_, ?_⟩
  · rintro ⟨⟨eph, hop⟩, -⟩
    exact hselect eph hop
  · rintro e - (⟨data, hop⟩ | ⟨⟨eph, hop⟩, -⟩)
    · exact absurd hop (hopening data)
    · exact absurd hop (hselect eph)

theorem select_guarded_iff {eph : KeycardCrypto.SecretKey}
    (hacts : Acts (.select eph) card trace (.returns (result, card')))
    (hpast : card.sc.isOpen = true → OpenedSince past) :
    Guarded (⟨card, .select eph, trace, .returns (result, card')⟩ :: past) ↔
      Step.Careful ⟨card, .select eph, trace, .returns (result, card')⟩ := by
  obtain ⟨⟨hcloses, hstays⟩, -⟩ := hacts.comes.kept
  have hok : result = .ok () ↔ Succeeds (.select eph) card trace := hacts.comes.ok_iff
  constructor
  · intro hguarded data hdata hnone
    obtain ⟨-, hfailed⟩ := guarded_cons.mp hguarded
    have hfails : ¬ Succeeds (.select eph) card trace := by
      rintro ⟨data', hdata', hdescribes⟩
      rw [hdata, Option.some.injEq] at hdata'
      exact hnone (hdata' ▸ hdescribes)
    obtain ⟨e, he⟩ := error_of_ne_ok (mt hok.mp hfails)
    exact hstays hfails ▸ hfailed e he (Or.inr ⟨⟨eph, rfl⟩, data, hdata⟩)
  · intro hcareful
    by_cases hsucceeds : Succeeds (.select eph) card trace
    · exact guarded_of_closed (hcloses hsucceeds)
    · have hsame := hstays hsucceeds
      cases hdata : accepted trace 0 with
      | none =>
          have hrefused : ¬ Step.Reselected
              ⟨card, .select eph, trace, .returns (result, card')⟩ := by
            rintro ⟨-, data, hdata'⟩
            rw [hdata] at hdata'
            cases hdata'
          refine guarded_cons.mpr ⟨fun hopen => (hpast (hsame ▸ hopen)).cons hrefused, ?_⟩
          rintro e - (⟨data, hop⟩ | hreselected)
          · cases hop
          · exact absurd hreselected hrefused
      | some data =>
          exact guarded_of_closed (hsame.trans (hcareful data hdata fun h =>
            hsucceeds ⟨data, hdata, h⟩))

theorem open_guarded_iff {data : Bytes 32}
    (hacts : Acts (.openSecureChannel data) card trace (.returns (result, card'))) :
    Guarded (⟨card, .openSecureChannel data, trace, .returns (result, card')⟩ :: past) ↔
      Step.Careful ⟨card, .openSecureChannel data, trace, .returns (result, card')⟩ := by
  obtain ⟨⟨hstays, hopens⟩, -⟩ := hacts.comes.kept
  have hok : result = .ok () ↔ Succeeds (.openSecureChannel data) card trace :=
    hacts.comes.ok_iff
  constructor
  · intro hguarded
    obtain ⟨-, hfailed⟩ := guarded_cons.mp hguarded
    have hclosed : ¬ Succeeds (.openSecureChannel data) card trace →
        card'.sc.isOpen = false := by
      intro hfails
      obtain ⟨e, he⟩ := error_of_ne_ok (mt hok.mp hfails)
      exact hfailed e he (Or.inl ⟨data, rfl⟩)
    refine ⟨fun hnone => hstays hnone ▸ hclosed ?_, fun reply hreply => ?_⟩
    · rintro ⟨reply, hreply, -⟩
      rw [hnone] at hreply
      cases hreply
    · by_contra hforeign
      have hfails : ¬ Succeeds (.openSecureChannel data) card trace := by
        rintro ⟨reply', hreply', hauthentic⟩
        rw [hreply, Option.some.injEq] at hreply'
        exact hforeign (hreply' ▸ hauthentic)
      exact Bool.false_ne_true ((hclosed hfails).symm.trans (hopens reply hreply))
  · rintro ⟨hrefused, hauthentic⟩
    cases hreply : accepted trace 0 with
    | none => exact guarded_of_closed ((hstays hreply).trans (hrefused hreply))
    | some reply =>
        obtain rfl := hok.mpr ⟨reply, hreply, hauthentic reply hreply⟩
        refine guarded_cons.mpr ⟨fun _ => ⟨[], _, past, rfl, ⟨⟨data, rfl⟩, card', rfl⟩,
          List.forall_mem_nil _⟩, fun e he => ?_⟩
        cases he

theorem guarded_cons_iff (hacts : Acts op card trace (.returns (result, card')))
    (hpast : card.sc.isOpen = true → OpenedSince past) :
    Guarded (⟨card, op, trace, .returns (result, card')⟩ :: past) ↔
      Step.Careful ⟨card, op, trace, .returns (result, card')⟩ := by
  have hleaves := hacts.comes.kept.1
  cases op with
  | select eph => exact select_guarded_iff hacts hpast
  | openSecureChannel data => exact open_guarded_iff hacts
  | _ => exact iff_of_true (guarded_of_same hpast nofun nofun hleaves) trivial

theorem Session.openedSince {history : List Step} {card : Keycard}
    (h : Session history (.returns card)) (hguarded : Guarded history) :
    card.sc.isOpen = true → OpenedSince history := by
  intro hopen
  generalize hstatus : Ending.returns card = status at h
  cases h with
  | connect =>
      obtain rfl := Ending.returns.inj hstatus
      cases hopen
  | step hpast hrun =>
      obtain ⟨⟨result, card'⟩, rfl, hcard⟩ := Ending.bind_eq_returns.mp hstatus.symm
      obtain rfl := Ending.returns.inj hcard
      exact (hguarded result card' rfl).1 hopen

/-- In a session whose steps all return, an open channel was opened since the card was
selected just as long as every step is careful. -/
theorem session_guarded_iff {history : List Step} {card : Keycard}
    (h : Session history (.returns card)) :
    (∀ past, past <:+ history → Guarded past) ↔ ∀ step ∈ history, step.Careful := by
  generalize hstatus : Ending.returns card = status at h
  induction h generalizing card with
  | connect =>
      refine iff_of_true (fun past hpast => ?_) (List.forall_mem_nil _)
      rw [List.suffix_nil.mp hpast]
      trivial
  | @step past before op trace c hpast hrun ih =>
      obtain ⟨⟨result, card'⟩, rfl, -⟩ := Ending.bind_eq_returns.mp hstatus.symm
      have hacts : Acts op before trace (.returns (result, card')) :=
        (perform_acts op).of_run hrun
      have hall := ih rfl
      rw [List.forall_mem_cons, ← hall]
      constructor
      · intro hguarded
        have htails : ∀ older, older <:+ past → Guarded older := fun older holder =>
          hguarded older (holder.trans (List.suffix_cons _ past))
        have hopened := hpast.openedSince (htails past List.suffix_rfl)
        exact ⟨(guarded_cons_iff hacts hopened).mp (hguarded _ List.suffix_rfl), htails⟩
      · rintro ⟨hcareful, htails⟩ older holder
        have hopened := hpast.openedSince (htails past List.suffix_rfl)
        rcases List.suffix_cons_iff.mp holder with rfl | holder
        · exact (guarded_cons_iff hacts hopened).mpr hcareful
        · exact htails older holder

theorem openSecureChannel_after {data : Bytes 32} {raw : List UInt8} {encKey macKey : Bytes 32}
    {iv : Bytes 16} {more : List Exchange} {c : Ending (Except String Unit × Keycard)}
    (hsw : (parseResponse raw).sw = swOk)
    (hkeys : deriveSessionKeys card.sc.secret card.pairingKey (parseResponse raw).data =
      .returns (encKey, macKey, iv))
    (hmore : ((mutuallyAuthenticate encKey macKey iv data).run card).After more (.ret c)) :
    ((openSecureChannel data).run card).After
      (⟨sending (Command.new claGp insOpenSecureChannel card.pairingIndex 0 card.sc.ephPub),
        .ok raw⟩ :: more) (.ret c) := by
  rw [openSecureChannel, Method.run_get_bind, run_transmit_bind]
  refine Program.op_after_cons.mpr ⟨.ok raw, rfl, ?_⟩
  simp only
  rw [if_neg fun h => h hsw, hkeys, Method.run_lift_bind]
  exact hmore

/-- The card opens a channel and refuses the first command over it. -/
theorem refused_session (data : Bytes 32) :
    ∃ (sent : Sent) (e : String) (card : Keycard), card.sc.isOpen = true ∧
      Session [⟨connect, .openSecureChannel data,
        [⟨sending (Command.new claGp insOpenSecureChannel 0 0 []),
          .ok (List.replicate 48 0 ++ [0x90, 0x00])⟩, ⟨sent, .ok [0x69, 0x82]⟩],
        .returns (.error e, card)⟩] (.returns card) := by
  have hsw : (parseResponse (List.replicate 48 0 ++ [0x90, 0x00])).sw = swOk := by decide
  have hlong : 48 ≤ (parseResponse (List.replicate 48 0 ++ [0x90, 0x00])).data.length := by
    decide
  obtain ⟨⟨encKey, macKey, iv⟩, hkeys⟩ : ∃ keys, deriveSessionKeys connect.sc.secret
    connect.pairingKey (parseResponse (List.replicate 48 0 ++ [0x90, 0x00])).data =
      .returns keys := deriveSessionKeys_returns.mpr hlong
  let opened : Keycard :=
    { connect with sc := { connect.sc with encKey, macKey, iv, isOpen := true } }
  obtain ⟨enc, henc, -⟩ := encryptData_eq encKey iv data.toList
  obtain ⟨mac, hmac⟩ := calculateMac_eq macKey (commandMeta
    (Command.new claGp insMutuallyAuthenticate 0 0 data.toList) (enc.length + 16)) enc
  have hopen : opened.sc.isOpen = true := rfl
  obtain ⟨next, hsend, hok, -⟩ := sendSc_run hopen henc hmac
  have hrefused : (openReply (parseResponse [0x69, 0x82])).run (setIv mac opened) =
      .ret (.returns (.error "secure channel outer SW 6982", setIv mac opened)) := by
    rw [openReply, Method.run_get_bind, if_pos (by decide)]
    rfl
  refine ⟨sending { Command.new claGp insMutuallyAuthenticate 0 0 data.toList with
    data := mac.toList ++ enc }, "secure channel outer SW 6982", setIv mac opened, rfl,
    .step .connect (openSecureChannel_after hsw hkeys ?_)⟩
  rw [mutuallyAuthenticate, Method.run_modify_bind, Method.run_bind_of_op hsend]
  refine Program.op_after_cons.mpr ⟨.ok [0x69, 0x82], rfl, ?_⟩
  rw [hok, hrefused]
  rfl

end Guard

/-- A plain confirmation opens nothing. -/
theorem session_guarded_iff_unpair : letI := sampleCrypto
    Guarded [⟨connect, .unpair 0, [⟨sending (Command.new claGp insUnpair 0 0 []),
      .ok [0x90, 0x00]⟩], .returns (.ok (), connect)⟩] :=
  (@session_guarded_iff sampleCrypto _ _ (@unpair_session sampleCrypto 0)).mpr
    (fun _ hstep => List.mem_singleton.mp hstep ▸ trivial) _ List.suffix_rfl

/-- A channel whose first command the card refuses counts as open. -/
theorem refused_session_unguarded : letI := sampleCrypto
    ∃ (sent : Sent) (e : String) (card : Keycard), card.sc.isOpen = true ∧
      Session [⟨connect, .openSecureChannel (List.Vector.replicate 32 0),
        [⟨sending (Command.new claGp insOpenSecureChannel 0 0 []),
          .ok (List.replicate 48 0 ++ [0x90, 0x00])⟩, ⟨sent, .ok [0x69, 0x82]⟩],
        .returns (.error e, card)⟩] (.returns card) ∧
      ¬ Guarded [⟨connect, .openSecureChannel (List.Vector.replicate 32 0),
        [⟨sending (Command.new claGp insOpenSecureChannel 0 0 []),
          .ok (List.replicate 48 0 ++ [0x90, 0x00])⟩, ⟨sent, .ok [0x69, 0x82]⟩],
        .returns (.error e, card)⟩] := by
  obtain ⟨sent, e, card, hopen, hsession⟩ :=
    @refused_session sampleCrypto (List.Vector.replicate 32 0)
  refine ⟨sent, e, card, hopen, hsession, fun hguarded => ?_⟩
  have hclosed := (hguarded (.error e) card rfl).2 e rfl (Or.inl ⟨_, rfl⟩)
  exact Bool.false_ne_true (hclosed.symm.trans hopen)

end Keycard

end RlnGifter
